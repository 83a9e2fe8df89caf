import ClassScript.Proofs.Simplify.Names
import ClassScript.Simplify
/-!
# Classes meant by `self` and `parent`, and plain assignments

Behind the pass for `self` and `parent` neither is left (`owners_sound`), and behind the next one
there are only plain assignments (`compound_sound`). The one puts `__parent` and global names into
the tree, the other a plain assignment with its operation; a shape that admits these is kept.
-/

namespace ClassScript

/-! ## `self` and `parent` -/

/-- The class that an expression refers to. -/
def Expr.cls? : Expr → Option ClassRef
  | .new _ c _ | .instanceOf _ _ c | .classConst _ c _ | .staticCall _ c _ _ | .staticProperty _ c _ =>
    some c
  | _ => none

def Part.NoOwner : Part → Prop
  | .expr e => e.cls? ≠ some .self ∧ e.cls? ≠ some .parent
  | _ => True

theorem Part.noOwner_bare (p : Part) : p.bare.NoOwner ↔ p.NoOwner := by
  cases p with
  | expr e =>
    cases e with
    | new _ c _ | instanceOf _ _ c | classConst _ c _ | staticCall _ c _ _ | staticProperty _ c _ =>
      cases c <;> simp [NoOwner, bare, Expr.bare, Expr.cls?, ClassRef.bare]
    | _ => rfl
  | _ => rfl

/-- The shape without `self` and `parent`. -/
def Shape.noOwners {β : Type} (r : Shape β) : Shape β :=
  r.and (fun _ => Part.NoOwner) fun _ => Part.noOwner_bare

/-- The expression with another class to refer to. -/
def Expr.referringTo (c : ClassRef) : Expr → Expr
  | .new p _ as => .new p c as
  | .instanceOf p v _ => .instanceOf p v c
  | .classConst p _ n => .classConst p c n
  | .staticCall p _ n as => .staticCall p c n as
  | .staticProperty p _ n => .staticProperty p c n
  | e => e

namespace Simplify

/-- What an expression becomes: its reference is global, or it is a member of `__parent`. -/
inductive Resolves : Expr → Expr → Prop
  | same {e} : (Part.expr e).NoOwner → Resolves e e
  | reference {e} (n : String) : e.cls? = some .self ∨ e.cls? = some .parent →
      Resolves e (e.referringTo (.named (.global n)))
  | method {p n as} : Resolves (.staticCall p .parent n as)
      (.methodCall p (.madeUp p parentBinding) n as none)
  | property {p n} : Resolves (.staticProperty p .parent n)
      (.property p (.madeUp p parentBinding) (.ident n) none)

theorem Owner.resolves {o : Owner} {e e' : Expr} (h : o.resolveExpr e = .ok e') : Resolves e e' := by
  obtain ⟨cls, parent⟩ := o
  cases e with
  | new _ c _ | instanceOf _ _ c | classConst _ c _ =>
    cases c with
    | self => cases cls <;> cases h; exact .reference _ (.inl rfl)
    | parent => cases parent <;> cases h; exact .reference _ (.inr rfl)
    | _ => cases h; exact .same ⟨nofun, nofun⟩
  | staticCall _ c _ _ =>
    cases c with
    | self => cases cls <;> cases h; exact .reference _ (.inl rfl)
    | parent => cases parent <;> cases h; exact .method
    | _ => cases h; exact .same ⟨nofun, nofun⟩
  | staticProperty _ c _ =>
    cases c with
    | self => cases cls <;> cases h; exact .reference _ (.inl rfl)
    | parent => cases parent <;> cases h; exact .property
    | _ => cases h; exact .same ⟨nofun, nofun⟩
  | _ => cases h; exact .same ⟨nofun, nofun⟩

namespace Resolves

variable {e e' : Expr} (h : Resolves e e')

include h

theorem stub_eq : e'.stub = e.stub := by
  cases h with
  | reference => cases e <;> rfl
  | _ => rfl

theorem noOwner : (Part.expr e').NoOwner := by
  cases h with
  | same h => exact h
  | reference n he => cases e <;> simp_all [Expr.cls?, Expr.referringTo, Part.NoOwner]
  | _ => exact ⟨nofun, nofun⟩

theorem ownNames (he : ∀ n ∈ e.ownNames, n.IsGlobal) : ∀ n ∈ e'.ownNames, n.IsGlobal := by
  cases h with
  | same => exact he
  | reference m hc =>
    cases e <;> simp_all [Expr.cls?, Expr.referringTo, Expr.ownNames, Name.isGlobal_global]
  | _ => rintro _ ⟨⟩

/-- Nothing else comes in below the expression than `__parent`. -/
theorem children : ∀ c ∈ (Part.expr e').children,
    c ∈ (Part.expr e).children ∨ ∃ p, c = .expr (.madeUp p parentBinding) := by
  cases h with
  | same _ => exact fun c hc => .inl hc
  | reference n he =>
    cases e <;> simp_all [Expr.cls?, Expr.referringTo, Part.children, Part.ofExpr, Part.ofClassRef]
  | method =>
    rintro c (_ | ⟨_, hc⟩)
    · exact .inr ⟨_, rfl⟩
    · exact .inl hc
  | property =>
    rintro c (_ | ⟨_, hc⟩)
    · exact .inr ⟨_, rfl⟩
    · exact .inl hc

end Resolves

/-- The shape admits what the pass for `self` and `parent` puts into the tree. -/
structure AdmitsOwners {β : Type} (r : Shape β) : Prop where
  expr : ∀ {b e e'}, Resolves e e' → r.holds b (.expr e) → r.holds b (.expr e')
  inherited : ∀ b p, r.holds b (.expr (.madeUp p parentBinding))

theorem owners_sound {β : Type} {r : Shape β} (hr : AdmitsOwners r) :
    Sound (.reading Owner (.unlessFailed Fault Unit)) owners (Turned r r.noOwners)
      fun k e e' k' => Rebuilt (Turned r r.noOwners) k (.expr e) (.expr e') k' where
  below _ h := h
  array hvs := Logic.map _ (VisitsItem.mapM hvs _) fun _ _ h => .array h
  store hv := hv.inOrder _
  expr h := Logic.bind _ (h _) fun e' _ he' e'' hok => by
    have hres := Owner.resolves hok
    refine Turned.expr he' hres.stub_eq fun hold hcs => throughout_expr.2 ⟨⟨hr.expr hres hold, hres.noOwner⟩, ?_⟩
    intro c hc
    rcases hres.children c hc with hc | ⟨p, rfl⟩
    · exact hcs c hc
    · exact throughout_expr.2 ⟨⟨hr.inherited _ p, nofun, nofun⟩, nofun⟩
  stmt h := Logic.bind _ (h _) fun _ _ hst => Logic.pure _ (.rebuilt hst rfl fun hold => ⟨hold, trivial⟩)
  param h := Logic.weaken _ (h _) fun _ _ hp => .rebuilt hp rfl fun hold => ⟨hold, trivial⟩
  closure h := Logic.weaken _ (h _) fun _ _ hp => .rebuilt hp rfl fun hold => ⟨hold, trivial⟩
  clause h := Logic.weaken _ (h _) fun _ _ hp => .rebuilt hp rfl fun hold => ⟨hold, trivial⟩
  method h := Logic.weaken _ (h _) fun _ _ hp => .rebuilt hp rfl fun hold => ⟨hold, trivial⟩
  cls h _ hc := (Turned.rebuilt (h _ _ hc) rfl fun hold => ⟨hold, trivial⟩).elsewhere _
  iface h _ hi := (Turned.rebuilt (h _ _ hi) rfl fun hold => ⟨hold, trivial⟩).elsewhere _

end Simplify

/-! ## Plain assignments -/

def Part.NoCompound : Part → Prop
  | .expr (.assignOp ..) | .expr (.step ..) => False
  | _ => True

theorem Part.noCompound_bare (p : Part) : p.bare.NoCompound ↔ p.NoCompound := by
  cases p with
  | expr e => cases e <;> rfl
  | _ => rfl

/-- The shape with plain assignments only. -/
def Shape.noCompounds {β : Type} (r : Shape β) : Shape β :=
  r.and (fun _ => Part.NoCompound) fun _ => Part.noCompound_bare

namespace Simplify

/-- The shape admits a plain assignment of an operation's result where it admits the compound one. -/
structure AdmitsPlain {β : Type} (r : Shape β) : Prop where
  assign : ∀ {b p op t v} v', r.holds b (.expr (.assignOp p op t v)) → r.holds b (.expr (.assign p t v' none))
  stepped : ∀ {b p op t} v', r.holds b (.expr (.step p op t)) → r.holds b (.expr (.assign p t v' none))
  binary : ∀ b p op l r', r.holds b (.expr (.binary p op l r'))
  one : ∀ b p, r.holds b (.expr (.int p 1))

theorem plainAssign_throughout {β : Type} {r : Shape β} (hr : AdmitsPlain r) {b : β} {e : Expr}
    (h : r.holds b (.expr e)) (hcs : ∀ c ∈ (Part.expr e).children, Throughout r.noCompounds b c) :
    Throughout r.noCompounds b (.expr (plainAssign e)) := by
  have binary {p op l r'} (hl : Throughout r.noCompounds b (.expr l))
      (hr' : Throughout r.noCompounds b (.expr r')) :
      Throughout r.noCompounds b (.expr (.binary p op l r')) :=
    throughout_expr.2 ⟨⟨hr.binary .., trivial⟩, by rintro c (_ | ⟨_, _ | ⟨_, ⟨⟩⟩⟩) <;> assumption⟩
  cases e with
  | assignOp p op t v =>
    have ht := hcs (.expr t) (.head _)
    have hv := hcs (.expr v) (.tail _ (.head _))
    refine throughout_expr.2 ⟨⟨hr.assign _ h, trivial⟩, ?_⟩
    rintro c (_ | ⟨_, _ | ⟨_, ⟨⟩⟩⟩)
    · exact ht
    · exact binary ht hv
  | step p op t =>
    have ht := hcs (.expr t) (.head _)
    refine throughout_expr.2 ⟨⟨hr.stepped _ h, trivial⟩, ?_⟩
    rintro c (_ | ⟨_, _ | ⟨_, ⟨⟩⟩⟩)
    · exact ht
    · exact binary ht (throughout_expr.2 ⟨⟨hr.one .., trivial⟩, nofun⟩)
  | _ => exact throughout_expr.2 ⟨⟨h, trivial⟩, hcs⟩

theorem compound_sound {β : Type} {r : Shape β} (hr : AdmitsPlain r) :
    Sound (.plain Unit) compound (Turned r r.noCompounds)
      fun k e e' k' => Rebuilt (Turned r r.noCompounds) k (.expr e) (.expr e') k' where
  below _ h := h
  array hvs := Rebuilt.array (VisitsItem.mapM hvs _)
  store hv := hv.inOrder _
  expr {_ _ e'} h := Turned.expr (h _) (by cases (e' : Expr) <;> rfl) (plainAssign_throughout hr)
  stmt h := .rebuilt (h _) rfl fun hold => ⟨hold, trivial⟩
  param h := .rebuilt (h _) rfl fun hold => ⟨hold, trivial⟩
  closure h := .rebuilt (h _) rfl fun hold => ⟨hold, trivial⟩
  clause h := .rebuilt (h _) rfl fun hold => ⟨hold, trivial⟩
  method h := .rebuilt (h _) rfl fun hold => ⟨hold, trivial⟩
  cls h := .rebuilt (h _) rfl fun hold => ⟨hold, trivial⟩
  iface h := .rebuilt (h _) rfl fun hold => ⟨hold, trivial⟩

end Simplify

end ClassScript
