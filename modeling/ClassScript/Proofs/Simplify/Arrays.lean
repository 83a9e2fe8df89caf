import ClassScript.Proofs.Tree.Throughout
import ClassScript.Simplify.Arrays
/-!
# Arrays and loops as calls

Behind the pass for arrays there are no literals, no elements and no loops over them
(`arrays_sound`): calls and callbacks stand in their place. The body of a loop becomes that of a
callback by a pass of its own (`callbackBody_sound`).
-/

namespace ClassScript

def Part.NoArray : Part → Prop
  | .expr (.array ..) | .expr (.index ..) | .stmt (.foreach ..) => False
  | _ => True

theorem Part.noArray_bare (p : Part) : p.bare.NoArray ↔ p.NoArray := by
  cases p with
  | expr e => cases e <;> rfl
  | stmt s => cases s <;> rfl
  | _ => rfl

/-- The shape without arrays and loops over them. -/
def Shape.noArrays {β : Type} (r : Shape β) : Shape β :=
  r.and (fun _ => Part.NoArray) fun _ => Part.noArray_bare

namespace Simplify

/-! ## The body of a loop -/

/-- An expression in a callback: what it assigns is declared elsewhere. -/
def inCallback : Expr → Expr
  | .assign p (.variable q n s) v _ => .assign p (.variable q n s) v (some false)
  | e => e

theorem inCallback_stub (e : Expr) : (inCallback e).stub = e.stub := by
  cases e with
  | assign p t v d => cases t <;> rfl
  | _ => rfl

theorem inCallback_children (e : Expr) :
    (Part.expr (inCallback e)).children = (Part.expr e).children := by
  cases e with
  | assign p t v d => cases t <;> rfl
  | _ => rfl

/-- What the shape in front of the pass for the body of a loop is to the one behind, in the contexts
of a body. -/
structure AdmitsCallback {β : Type} (S : β → Prop) (r r' : Shape β) : Prop where
  enter : ∀ {b p}, r'.enter b p = r.enter b p
  inside : ∀ {b p}, S b → (∀ c, p ≠ .closure c) → S (r.enter b p)
  kept : ∀ {b p}, S b → (∀ e, p ≠ .expr e) → (∀ c, p ≠ .closure c) → r.holds b p → r'.holds b p
  expr : ∀ {b e}, S b → r.holds b (.expr e) → r'.holds b (.expr (inCallback e))
  ret : ∀ {b p v}, S b → r'.holds b (.stmt (.ret p v))
  stop : ∀ {b p}, S b → r'.holds b (.expr (.bool p false))
  closure : ∀ {b c}, S b → Throughout r b (.closure c) → Throughout r' b (.closure c)

section Callback

variable {β : Type} {S : β → Prop} {r r' : Shape β} (hr : AdmitsCallback S r r') {k k' : Nat}
  {p p' : Part}

include hr

theorem callback_rebuilt
    (h : Rebuilt (Carried (fun _ => S) (Throughout r) (Throughout r')) k p p' k')
    (he : ∀ e, p ≠ .expr e) (hc : ∀ c, p ≠ .closure c) :
    Carried (fun _ => S) (Throughout r) (Throughout r') k p [p'] k' :=
  Carried.rebuilt h hr.enter (fun hS => hr.inside hS hc) fun hS => hr.kept hS he hc

theorem callbackBody_sound :
    Sound (.reading Nat (.unlessFailed Fault Unit)) callbackBody
      (Carried (fun _ => S) (Throughout r) (Throughout r'))
      fun k e e' k' => Rebuilt (Carried (fun _ => S) (Throughout r) (Throughout r'))
        k (.expr e) (.expr e') k' where
  below _ h := h
  array hvs := Logic.map _ (VisitsItem.mapM hvs _) fun _ _ h => .array h
  store hv := hv.inOrder _
  expr h := Logic.bind _ (h _) fun e₁ k₁ he₁ => by
    have hmarked : Carried (fun _ => S) (Throughout r) (Throughout r') _ _ [.expr (inCallback e₁)] k₁ :=
      Carried.edited he₁ (congrArg Part.expr (inCallback_stub e₁)) (fun hS => hr.inside hS nofun)
        fun hS hold hcs => throughout_expr.2 ⟨hr.expr hS hold, by
          rw [r.enter_expr] at hcs
          rwa [inCallback_children]⟩
    cases e₁ with
    | assign p t v d => cases t <;> exact Logic.pure _ hmarked
    | _ => exact Logic.pure _ hmarked
  stmt {k st _} h := by
    cases st with
    | continueLoop p =>
      cases k with
      | zero =>
        rintro _ ⟨⟩
        exact Carried.one rfl fun hS _ => throughout_stmt.2 ⟨hr.ret hS, nofun⟩
      | succ k =>
        rintro _ ⟨⟩
        exact callback_rebuilt hr (.leaf rfl) nofun nofun
    | breakLoop p =>
      cases k with
      | zero =>
        rintro _ ⟨⟩
        refine Carried.one rfl fun hS _ => throughout_stmt.2 ⟨hr.ret hS, ?_⟩
        rintro _ (_ | ⟨_, ⟨⟩⟩)
        exact throughout_expr.2 ⟨hr.stop hS, nofun⟩
      | succ k =>
        rintro _ ⟨⟩
        exact callback_rebuilt hr (.leaf rfl) nofun nofun
    | ret p v => exact fun _ => nofun
    | whileLoop | forLoop =>
      have loop := (Logic.reading Nat (.unlessFailed Fault Unit)).weaken (h (k + 1)) fun _ _ hst =>
        (callback_rebuilt hr hst nofun nofun).elsewhere k
      exact Logic.bind _ loop fun _ _ hst => Logic.pure _ hst
    | _ => exact Logic.bind _ (h _) fun _ _ hst => Logic.pure _ (callback_rebuilt hr hst nofun nofun)
  param h := Logic.weaken _ (h _) fun _ _ hp => callback_rebuilt hr hp nofun nofun
  closure h := Logic.pure _ (Carried.one rfl hr.closure)
  clause h := Logic.weaken _ (h _) fun _ _ hc => callback_rebuilt hr hc nofun nofun
  method h := Logic.weaken _ (h _) fun _ _ hm => callback_rebuilt hr hm nofun nofun
  cls h := Logic.weaken _ (h _) fun _ _ hc => callback_rebuilt hr hc nofun nofun
  iface h := Logic.weaken _ (h _) fun _ _ hi => callback_rebuilt hr hi nofun nofun

end Callback

/-- The statements of a body behind the pass. -/
theorem callbackBody_throughout {β : Type} {S : β → Prop} {r r' : Shape β} (hr : AdmitsCallback S r r')
    {b : β} (hS : S b) {ss ss' : List Stmt} (h : (stmtsThrough callbackBody ss).run 0 = .ok ss')
    (hss : ∀ s ∈ ss, Throughout r b (.stmt s)) : ∀ s ∈ ss', Throughout r' b (.stmt s) :=
  Carried.ofStmts ((callbackBody_sound hr).stmts ss 0 ss' h) hS hss

/-! ## Loops -/

/-- A parameter that a loop binds has no type and no default. -/
structure IsBinding (q : Param) : Prop where
  type : q.type = none
  default : q.default = none

theorem isBinding_of_binding {e : Expr} {q : Param} (h : binding e = .ok q) : IsBinding q := by
  unfold binding at h
  split at h
  · cases h
  · cases h
    exact ⟨rfl, rfl⟩

/-- The loop as a call: its callback has the bound variables as parameters. -/
theorem iteration_ok {p : Position} {subject : Expr} {key : Option Expr} {value : Expr}
    {body : List Stmt} {s : Stmt} (h : iteration p subject key value body = .ok s) :
    ∃ ps body', (∀ q ∈ ps, IsBinding q) ∧ (stmtsThrough callbackBody body).run 0 = .ok body' ∧
      s = .expression (callMethod p subject "foreach" [.closure p ⟨ps, [], body', false, false, true⟩]) := by
  obtain ⟨v, hv, h⟩ := bind_eq_ok.1 h
  obtain ⟨ks, hks, h⟩ := bind_eq_ok.1 h
  obtain ⟨body', hbody, h⟩ := bind_eq_ok.1 h
  refine ⟨v :: ks.toList, body', ?_, hbody, (Except.ok.inj h).symm⟩
  have hv' := isBinding_of_binding hv
  cases key with
  | none =>
    cases hks
    simpa using hv'
  | some key =>
    obtain ⟨k, hk, hks⟩ := bind_eq_ok.1 hks
    cases hks
    simpa using ⟨hv', isBinding_of_binding hk⟩

/-! ## Literals -/

theorem addItem_ok {v : ItemVisit (Except Fault)} {p : Position} {array e' : Expr}
    (h : addItem p array v = .ok e') : ∃ value, v.value = .ok value ∧
      (v.key = none ∧ e' = callMethod p array "push" [value] ∨
        ∃ key, v.key = some (.ok key) ∧ e' = callMethod p array "setItemAt" [key, value]) := by
  obtain ⟨⟨_, _, byRef, unpack⟩, key, value⟩ := v
  cases byRef with
  | true => cases h
  | false =>
    cases unpack with
    | true => cases h
    | false =>
      obtain ⟨v', hv', h⟩ := bind_eq_ok.1 h
      refine ⟨v', hv', ?_⟩
      cases key with
      | none => exact .inl ⟨rfl, (Except.ok.inj h).symm⟩
      | some key =>
        obtain ⟨k', rfl, h⟩ := bind_eq_ok.1 h
        exact .inr ⟨k', rfl, (Except.ok.inj h).symm⟩

theorem mem_children_callMethod {p : Position} {o : Expr} {n : String} {as : List Expr} {c : Part} :
    c ∈ (Part.expr (callMethod p o n as)).children ↔ c = .expr o ∨ ∃ a ∈ as, .expr a = c := by
  simp only [callMethod, Part.children, Part.ofExpr, Part.ofMemberName, Part.ofArgs_eq, argExprs, Part.exprs,
    List.map_map, List.nil_append, List.mem_cons, List.mem_map]
  rfl

/-- What holds of expressions before the pass for arrays and behind it, if it goes over to calls. -/
structure IntoCalls (R : Change Unit) (T T' : Expr → Prop) : Prop where
  each : ∀ {e e'}, R.expr () e e' () → T e → T' e'
  sub : ∀ {e c}, T e → c ∈ e.subexprs → T c
  call : ∀ {p o n as}, T' o → (∀ a ∈ as, T' a) → T' (callMethod p o n as)

namespace IntoCalls

variable {R : Change Unit} {T T' : Expr → Prop} (hT : IntoCalls R T T')

include hT

/-- One more item of a literal. -/
theorem addItem {i : ArrayItem} {v : ItemVisit (Except Fault)}
    (hv : VisitsItem (.unlessFailed Fault Unit) R i v) {p : Position} {array e' : Expr}
    (h : Simplify.addItem p array v = .ok e') (harray : T' array)
    (hi : ∀ e ∈ i.key.toList ++ [i.value], T e) : T' e' := by
  obtain ⟨v', hv', h⟩ := addItem_ok h
  obtain ⟨hkey, hvalue⟩ := hv
  have hv'' := hT.each (hvalue () v' hv') (hi _ (by simp))
  rcases h with ⟨-, rfl⟩ | ⟨k', hk', rfl⟩
  · exact hT.call harray (by simpa using hv'')
  · cases hkey with
    | none => cases hk'
    | some hk =>
      have hk'' := hT.each (hk () k' (Option.some.inj hk')) (hi _ (by simp))
      exact hT.call harray (by simpa using ⟨hk'', hv''⟩)

theorem addItems {is : List ArrayItem} {vs : List (ItemVisit (Except Fault))}
    (hvs : List.Forall₂ (VisitsItem (.unlessFailed Fault Unit) R) is vs) {p : Position} {array e' : Expr}
    (h : vs.foldlM (Simplify.addItem p) array = .ok e') (harray : T' array) (his : ∀ e ∈ itemExprs is, T e) :
    T' e' := by
  induction hvs generalizing array with
  | nil => exact Except.ok.inj h ▸ harray
  | cons hv _ ih =>
    obtain ⟨array', hstep, h⟩ := bind_eq_ok.1 h
    simp only [itemExprs, List.mem_append, List.mem_cons] at his
    refine ih h (hT.addItem hv hstep harray ?_) fun e he => his e (.inr (.inr he))
    intro e he
    simp only [List.mem_append, List.mem_singleton] at he
    exact his e (he.imp_right .inl)

/-- An assignment to an element. -/
theorem store {e e' : Expr} {visit : StoreVisit (Except Fault)}
    (hvisit : VisitsStore (.unlessFailed Fault Unit) R e visit) (h : arrays.store visit = .ok e') (he : T e) :
    T' e' := by
  cases hvisit with
  | mk ha hi hv _ =>
    obtain ⟨a', ha', h⟩ := bind_eq_ok.1 h
    obtain ⟨v', hv', h⟩ := bind_eq_ok.1 h
    have htarget := hT.sub he (.head _)
    have harray := hT.each (ha () a' ha') (hT.sub htarget (.head _))
    have hvalue := hT.each (hv () v' hv') (hT.sub he (.tail _ (.head _)))
    cases hi with
    | none =>
      cases h
      exact hT.call harray (by simpa using hvalue)
    | some hi =>
      obtain ⟨i', hi', h⟩ := bind_eq_ok.1 h
      cases h
      have hindex := hT.each (hi () i' hi') (hT.sub htarget (.tail _ (.head _)))
      exact hT.call harray (by simpa using ⟨hindex, hvalue⟩)

end IntoCalls

theorem addItems_stub {vs : List (ItemVisit (Except Fault))} {p : Position} {array e' : Expr}
    (h : vs.foldlM (addItem p) array = .ok e') (harray : array.stub = .null .unknown) :
    e'.stub = .null .unknown := by
  induction vs generalizing array with
  | nil => exact Except.ok.inj h ▸ harray
  | cons v vs ih =>
    obtain ⟨array', hstep, h⟩ := bind_eq_ok.1 h
    obtain ⟨_, -, ⟨-, rfl⟩ | ⟨_, -, rfl⟩⟩ := addItem_ok hstep <;> exact ih h rfl

theorem store_stub {visit : StoreVisit (Except Fault)} {e' : Expr} (h : arrays.store visit = .ok e') :
    e'.stub = .null .unknown := by
  obtain ⟨a', -, h⟩ := bind_eq_ok.1 h
  obtain ⟨v', -, h⟩ := bind_eq_ok.1 h
  cases hi : visit.index with
  | none =>
    rw [hi] at h
    cases h
    rfl
  | some index =>
    rw [hi] at h
    obtain ⟨i', -, h⟩ := bind_eq_ok.1 h
    cases h
    rfl

/-! ## The pass -/

/-- What the shape in front of the pass for arrays is to the one behind. -/
structure AdmitsArrays {β : Type} (r r' : Shape β) : Prop where
  enter : ∀ {b p}, r'.enter b p = r.enter b p
  kept : ∀ {b p}, p.NoArray → r.holds b p → r'.holds b p
  call : ∀ {b p o n as}, r'.holds b (.expr (callMethod p o n as))
  array : ∀ {b p}, r'.holds b (.expr (.new p (.named (.global arrayClass)) []))
  statement : ∀ {b e}, r'.holds b (.stmt (.expression e))
  function : ∀ {b p c}, r'.holds b (.expr (.closure p c))
  callback : ∀ {b ps body}, (∀ q ∈ ps, IsBinding q) →
    r'.holds b (.closure ⟨ps, [], body, false, false, true⟩)
  binding : ∀ {b q}, IsBinding q → r'.holds b (.param q)
  body : ∀ {b c ss ss'}, c.isIteration = true → (stmtsThrough callbackBody ss).run 0 = .ok ss' →
    (∀ s ∈ ss, Throughout r' b (.stmt s)) →
    ∀ s ∈ ss', Throughout r' (r'.enter b (.closure c)) (.stmt s)

section Arrays

variable {β : Type} {r r' : Shape β} (hr : AdmitsArrays r r') {b : β}

include hr

theorem callMethod_throughout {p : Position} {o : Expr} {n : String} {as : List Expr}
    (ho : Throughout r' b (.expr o)) (has : ∀ a ∈ as, Throughout r' b (.expr a)) :
    Throughout r' b (.expr (callMethod p o n as)) := by
  refine throughout_expr.2 ⟨hr.call, fun c hc => ?_⟩
  rcases mem_children_callMethod.1 hc with rfl | ⟨a, ha, rfl⟩
  · exact ho
  · exact has a ha

theorem iteration_throughout {p : Position} {subject : Expr} {key : Option Expr} {value : Expr}
    {body : List Stmt} {s : Stmt} (h : iteration p subject key value body = .ok s)
    (hsubject : Throughout r' b (.expr subject)) (hbody : ∀ s ∈ body, Throughout r' b (.stmt s)) :
    Throughout r' b (.stmt s) := by
  obtain ⟨ps, body', hps, hrun, rfl⟩ := iteration_ok h
  refine throughout_stmt.2 ⟨hr.statement, ?_⟩
  rintro _ (_ | ⟨_, ⟨⟩⟩)
  refine callMethod_throughout hr hsubject ?_
  rintro _ (_ | ⟨_, ⟨⟩⟩)
  refine throughout_expr.2 ⟨hr.function, ?_⟩
  rintro _ (_ | ⟨_, ⟨⟩⟩)
  refine throughout_iff.2 ⟨hr.callback hps, fun c hc => ?_⟩
  rcases List.mem_append.1 hc with hc | hc
  · obtain ⟨q, hq, rfl⟩ := List.mem_map.1 hc
    refine throughout_param.2 ⟨hr.binding (hps q hq), ?_⟩
    simp [Part.children, (hps q hq).default, Part.exprs]
  · obtain ⟨s, hs, rfl⟩ := List.mem_map.1 hc
    exact hr.body rfl hrun hbody s hs

theorem intoCalls_throughout :
    IntoCalls (Turned r r') (Throughout r b <| .expr ·) (Throughout r' b <| .expr ·) where
  each h hT := h.each trivial hT _ (.head _)
  sub hT hc := (throughout_expr.1 hT).2 _ (Part.expr_mem_children hc)
  call := callMethod_throughout hr

end Arrays

/-- What becomes of an expression before the pass looks at it: its children are settled, and so is
itself unless it is an element. -/
structure Listed {β : Type} (r r' : Shape β) (e e' : Expr) : Prop where
  stub : e'.stub = e.stub
  children : ∀ {b}, Throughout r b (.expr e) → ∀ c ∈ (Part.expr e').children, Throughout r' b c
  holds : ∀ {b}, Throughout r b (.expr e) →
    r'.holds b (.expr e') ∨ r.holds b (.expr e') ∧ ∀ p is, e' ≠ .array p is

theorem Listed.of_throughout {β : Type} {r r' : Shape β} {e e' : Expr} (hstub : e'.stub = e.stub)
    (h : ∀ {b}, Throughout r b (.expr e) → Throughout r' b (.expr e')) : Listed r r' e e' :=
  ⟨hstub, fun hT => (throughout_expr.1 (h hT)).2, fun hT => .inl (h hT).head⟩

theorem Listed.of_rebuilt {β : Type} {r r' : Shape β} {k k' : Unit} {e e' : Expr} (ho : e.inOrder = true)
    (h : Rebuilt (Turned r r') k (.expr e) (.expr e') k') : Listed r r' e e' where
  stub := Part.expr.inj h.stub_carried
  children hT := h.children_carried trivial (throughout_expr.1 hT).2
  holds hT := by
    refine .inr ⟨(r.holds_congr h.bare_carried).2 hT.head, ?_⟩
    rintro p is rfl
    have hbare := Part.expr.inj h.bare_carried
    cases e <;> cases hbare
    cases ho

/-- An expression that is no element stays as it is. -/
theorem Listed.carried {β : Type} {r r' : Shape β} (hr : AdmitsArrays r r') {e e' : Expr}
    (h : Listed r r' e e') (hindex : ∀ p a i, e' ≠ .index p a i) :
    Turned r r' () (.expr e) [.expr e'] () := by
  refine Carried.one (congrArg Part.expr h.stub) fun _ hT => throughout_expr.2 ⟨?_, h.children hT⟩
  rcases h.holds hT with hold | ⟨hold, harray⟩
  · exact hold
  · refine hr.kept ?_ hold
    cases e' with
    | array => exact absurd rfl (harray _ _)
    | index => exact absurd rfl (hindex _ _ _)
    | _ => trivial

theorem stub_of_visitsStore {L : Logic (Except Fault) Unit} {R : Change Unit} {e : Expr}
    {visit : StoreVisit (Except Fault)} (h : VisitsStore L R e visit) : e.stub = .null .unknown := by
  cases h
  rfl

/-- Arrays are gone behind the pass. -/
theorem arrays_sound {β : Type} {r r' : Shape β} (hr : AdmitsArrays r r') :
    Sound (.unlessFailed Fault Unit) arrays (Turned r r') fun _ e e' _ => Listed r r' e e' where
  below := Listed.of_rebuilt
  array hvs e' he' := .of_throughout (addItems_stub he' rfl) fun hT =>
    (intoCalls_throughout hr).addItems hvs he' (throughout_expr.2 ⟨hr.array, nofun⟩) fun _ he =>
      (intoCalls_throughout hr).sub hT he
  store hv _ he' := .of_throughout ((store_stub he').trans (stub_of_visitsStore hv).symm)
    ((intoCalls_throughout hr).store hv he')
  expr h := Logic.bind _ (h _) fun e₁ _ he₁ => by
    cases e₁ with
    | index p a i =>
      cases i with
      | none => exact nofun
      | some i =>
        refine Logic.pure _ (Carried.one (congrArg Part.expr he₁.stub) fun _ hT => ?_)
        have hcs := he₁.children hT
        exact callMethod_throughout hr (hcs _ (.head _)) (by simpa using hcs _ (.tail _ (.head _)))
    | _ => exact Logic.pure _ (he₁.carried hr nofun)
  stmt h := Logic.bind _ (h _) fun s₁ _ hs₁ => by
    cases s₁ with
    | foreach p subject key value byRef body =>
      cases byRef with
      | true => exact nofun
      | false =>
        intro ss hss
        obtain ⟨s, hs, hss⟩ := bind_eq_ok.1 hss
        cases hss
        refine Carried.editedStmts hs₁ fun _ _ hcs => ?_
        rintro _ (_ | ⟨_, ⟨⟩⟩)
        refine iteration_throughout hr hs (hcs _ (.head _)) fun s hs => hcs _ ?_
        simp [Part.children, Part.ofStmt, Part.stmts, hs]
    | _ =>
      refine Logic.pure _ (Carried.editedStmts hs₁ fun _ hold hcs => ?_)
      rintro _ (_ | ⟨_, ⟨⟩⟩)
      exact throughout_stmt.2 ⟨hr.kept trivial hold, hcs⟩
  param h := Logic.weaken _ (h _) fun _ _ hp => .rebuilt hp hr.enter (hr.kept trivial)
  closure h := Logic.weaken _ (h _) fun _ _ hp => .rebuilt hp hr.enter (hr.kept trivial)
  clause h := Logic.weaken _ (h _) fun _ _ hp => .rebuilt hp hr.enter (hr.kept trivial)
  method h := Logic.weaken _ (h _) fun _ _ hp => .rebuilt hp hr.enter (hr.kept trivial)
  cls h := Logic.weaken _ (h _) fun _ _ hp => .rebuilt hp hr.enter (hr.kept trivial)
  iface h := Logic.weaken _ (h _) fun _ _ hp => .rebuilt hp hr.enter (hr.kept trivial)

end Simplify

end ClassScript
