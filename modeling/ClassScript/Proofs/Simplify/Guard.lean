import ClassScript.Proofs.Simplify.Names
import ClassScript.Simplify.Guard
/-!
# Dropped types

Behind the pass for the parameter types no parameter has a type, apart from those that are kept
(`typeGuards_sound`, `typeless_sound`). Parameters lose their types together with the function that
they belong to, which gets the guards in exchange.
-/

namespace ClassScript

/-- Whether parameters may stand directly below the part. -/
def Part.takesParams : Part → Bool
  | .closure _ | .method _ => true
  | _ => false

namespace Part

theorem ne_param_of_mem_elseIfs {bs : List ElseIf} {c : Part} (h : c ∈ elseIfs bs) (q : Param) :
    c ≠ .param q := by
  induction bs with
  | nil => cases h
  | cons b rest ih =>
    simp only [elseIfs, stmts, List.mem_cons, List.mem_append, List.mem_map] at h
    rcases h with rfl | ⟨s, _, rfl⟩ | h
    · rintro ⟨⟩
    · rintro ⟨⟩
    · exact ih h

theorem ne_param_of_mem_members {ms : List Member} {c : Part} (h : c ∈ members ms) (q : Param) :
    c ≠ .param q := by
  induction ms with
  | nil => cases h
  | cons m rest ih =>
    cases m <;> simp only [members, exprs, List.mem_cons, List.mem_append, List.mem_map] at h
    · rcases h with ⟨e, _, rfl⟩ | h
      · rintro ⟨⟩
      · exact ih h
    · rcases h with rfl | h
      · rintro ⟨⟩
      · exact ih h
    · rcases h with rfl | h
      · rintro ⟨⟩
      · exact ih h
    · exact ih h

theorem ne_param_of_mem_children {p c : Part} (hp : p.takesParams = false) (hc : c ∈ p.children)
    (q : Param) : c ≠ .param q := by
  rintro rfl
  cases p with
  | expr e => rcases mem_ofExpr.1 hc with ⟨_, _, h⟩ | ⟨_, _, _, h⟩ <;> cases h
  | stmt s =>
    cases s <;> simp only [children, ofStmt, exprs, stmts, List.mem_cons, List.mem_append,
      List.mem_map, reduceCtorEq, false_or, or_false, and_false, exists_false, List.not_mem_nil] at hc
    exact ne_param_of_mem_elseIfs hc q rfl
  | closure c => cases hp
  | method m => cases hp
  | param p => simp [children, exprs] at hc
  | clause c => simp [children, stmts] at hc
  | cls c => exact ne_param_of_mem_members hc q rfl
  | iface i => exact ne_param_of_mem_members (interfaceMembers_subset _ hc) q rfl

end Part

/-- The shape with types only where they are kept. -/
def Shape.untyped {β : Type} (r : Shape β) (keep : β → Bool) : Shape β :=
  r.and (fun b p => keep b = false → p.ownType? = none) fun _ p => by rw [p.ownType?_bare]

namespace Simplify

/-- The shape admits guards, and a parameter without its type. -/
structure AdmitsGuards {β : Type} (r : Shape β) : Prop where
  untyped : ∀ {b p}, r.holds b (.param p) → r.holds b (.param (untyped p))
  branch : ∀ {b p c s}, r.holds b (.stmt (.branch p c [s] [] none))
  throwValue : ∀ {b p e}, r.holds b (.stmt (.throwValue p e))
  error : ∀ {b p n as}, r.holds b (.expr (.new p (.named (.global n)) as))
  message : ∀ {b p s}, r.holds b (.expr (.string p s))
  binary : ∀ {b p op l r'}, r.holds b (.expr (.binary p op l r'))
  unary : ∀ {b p op e}, r.holds b (.expr (.unary p op e))
  isset : ∀ {b p es}, r.holds b (.expr (.isset p es))
  subject : ∀ {b p n}, r.holds b (.expr (.var p n))
  test : ∀ {b p n as}, r.holds b (.expr (.call p (.named (.global n)) as))
  isInstance : ∀ {b p q e t}, r.holds b (.param p) → p.type = some t → t.name.isScalar = false →
    r.holds b (.expr (.instanceOf q e (.named t.name)))

section Guards

variable {β : Type} {r : Shape β} {keep : β → Bool} {b : β} (hr : AdmitsGuards r)

theorem throughout_untyped_expr {e : Expr} (h : r.holds b (.expr e))
    (hcs : ∀ c ∈ (Part.expr e).children, Throughout (r.untyped keep) b c) :
    Throughout (r.untyped keep) b (.expr e) := throughout_expr.2 ⟨⟨h, fun _ => rfl⟩, hcs⟩

theorem throughout_untyped_stmt {s : Stmt} (h : r.holds b (.stmt s))
    (hcs : ∀ c ∈ (Part.stmt s).children, Throughout (r.untyped keep) b c) :
    Throughout (r.untyped keep) b (.stmt s) := throughout_stmt.2 ⟨⟨h, fun _ => rfl⟩, hcs⟩

include hr

theorem unary_throughout {p : Position} {op : UnaryOp} {e : Expr}
    (h : Throughout (r.untyped keep) b (.expr e)) :
    Throughout (r.untyped keep) b (.expr (.unary p op e)) :=
  throughout_untyped_expr hr.unary (by rintro c (_ | ⟨_, ⟨⟩⟩); exact h)

theorem binary_throughout {p : Position} {op : BinaryOp} {e e' : Expr}
    (h : Throughout (r.untyped keep) b (.expr e)) (h' : Throughout (r.untyped keep) b (.expr e')) :
    Throughout (r.untyped keep) b (.expr (.binary p op e e')) :=
  throughout_untyped_expr hr.binary (by rintro c (_ | ⟨_, _ | ⟨_, ⟨⟩⟩⟩) <;> assumption)

theorem guardTest_throughout {nullable : Bool} {isset matching : Expr} {p : Position}
    (hi : Throughout (r.untyped keep) b (.expr isset))
    (hm : Throughout (r.untyped keep) b (.expr matching)) :
    Throughout (r.untyped keep) b (.expr (guardTest nullable isset matching p)) := by
  unfold guardTest
  split
  · exact binary_throughout hr hi (unary_throughout hr hm)
  · exact binary_throughout hr (unary_throughout hr hi) (unary_throughout hr hm)

theorem typeTest_throughout {q : Param} {t : TypeHint} {subject test : Expr} {p : Position}
    (hq : r.holds b (.param q)) (ht : q.type = some t)
    (hs : Throughout (r.untyped keep) b (.expr subject)) (h : typeTest? t subject p = some test) :
    Throughout (r.untyped keep) b (.expr test) := by
  unfold typeTest? at h
  split at h
  · obtain ⟨n, -, rfl⟩ := Option.map_eq_some_iff.1 h
    exact throughout_untyped_expr hr.test (by rintro c (_ | ⟨_, ⟨⟩⟩); exact hs)
  · next hscalar =>
    obtain rfl := Option.some.inj h
    exact throughout_untyped_expr (hr.isInstance hq ht (Bool.eq_false_iff.2 hscalar))
      (by rintro c (_ | ⟨_, ⟨⟩⟩); exact hs)

theorem guard_throughout {owner : String} {i : Nat} {q : Param} {t : TypeHint} {s : Stmt}
    (hq : r.holds b (.param q)) (ht : q.type = some t) (h : guard? owner i q t = some s) :
    Throughout (r.untyped keep) b (.stmt s) := by
  obtain ⟨test, htest, rfl⟩ := Option.map_eq_some_iff.1 h
  have hs : Throughout (r.untyped keep) b (.expr (.var q.pos q.name)) :=
    throughout_untyped_expr hr.subject nofun
  have hisset : Throughout (r.untyped keep) b (.expr (.isset q.pos [.var q.pos q.name])) :=
    throughout_untyped_expr hr.isset (by rintro c (_ | ⟨_, ⟨⟩⟩); exact hs)
  refine throughout_untyped_stmt hr.branch ?_
  rintro c (_ | ⟨_, _ | ⟨_, ⟨⟩⟩⟩)
  · exact guardTest_throughout hr hisset (typeTest_throughout hr hq ht hs htest)
  · refine throughout_untyped_stmt hr.throwValue ?_
    rintro c (_ | ⟨_, ⟨⟩⟩)
    refine throughout_untyped_expr hr.error ?_
    rintro c (_ | ⟨_, ⟨⟩⟩)
    exact throughout_untyped_expr hr.message nofun

theorem guardsFrom_throughout {owner : String} {ps : List Param}
    (hps : ∀ p ∈ ps, r.holds b (.param p)) (i : Nat) :
    ∀ s ∈ guardsFrom owner i ps, Throughout (r.untyped keep) b (.stmt s) := by
  induction ps generalizing i with
  | nil => nofun
  | cons p rest ih =>
    intro s hs
    rcases List.mem_append.1 hs with hs | hs
    · replace hs := Option.mem_toList.1 hs
      split at hs
      · cases hs
      · obtain ⟨t, ht, hs⟩ := Option.bind_eq_some_iff.1 hs
        exact guard_throughout hr (hps p (.head _)) ht hs
    · exact ih (fun q hq => hps q (.tail _ hq)) _ s hs

end Guards

/-! ## The passes -/

section Passes

variable {β : Type} {r : Shape β} {keep : β → Bool} {b : β}

theorem typeless_sound (hr : ∀ {b p}, r.holds b (.param p) → r.holds b (.param (untyped p))) :
    Sound (.plain Unit) typeless (Turned r (r.untyped keep))
      fun k e e' k' => Rebuilt (Turned r (r.untyped keep)) k (.expr e) (.expr e') k' where
  below _ h := h
  array hvs := Rebuilt.array (VisitsItem.mapM hvs _)
  store hv := hv.inOrder _
  expr h := .rebuilt (h _) rfl fun hold => ⟨hold, fun _ => rfl⟩
  stmt h := .rebuilt (h _) rfl fun hold => ⟨hold, fun _ => rfl⟩
  param h := Carried.edited (h _) rfl (fun _ => trivial) fun _ hold hcs => throughout_param.2
    ⟨⟨hr hold, fun _ => rfl⟩, by rwa [r.enter_param] at hcs⟩
  closure h := .rebuilt (h _) rfl fun hold => ⟨hold, fun _ => rfl⟩
  clause h := .rebuilt (h _) rfl fun hold => ⟨hold, fun _ => rfl⟩
  method h := .rebuilt (h _) rfl fun hold => ⟨hold, fun _ => rfl⟩
  cls h := .rebuilt (h _) rfl fun hold => ⟨hold, fun _ => rfl⟩
  iface h := .rebuilt (h _) rfl fun hold => ⟨hold, fun _ => rfl⟩

/-- Types are kept inside of the classes that list the script interface. -/
structure KeepsScripts (r : Shape β) (keep : β → Bool) (scriptInterface : String) : Prop where
  cls : ∀ {b c}, keep (r.enter b (.cls c)) = c.lists scriptInterface
  other : ∀ {b p}, (∀ c, p ≠ .cls c) → keep (r.enter b p) = keep b

/-- The shape behind the pass, with a parameter that is still to lose its type. -/
def UpToType (r : Shape β) (keep : β → Bool) (b : β) : Part → Prop
  | .param p => Throughout (r.untyped keep) b (.param (untyped p)) ∧ r.holds b (.param p)
  | p => Throughout (r.untyped keep) b p

theorem UpToType.throughout {p : Part} (hp : ∀ q, p ≠ .param q) (h : UpToType r keep b p) :
    Throughout (r.untyped keep) b p := by
  cases p with
  | param q => exact absurd rfl (hp q)
  | _ => exact h

/-- The contexts that may be met at a place of the pass. -/
def AtPlace (keep : β → Bool) (k : Place) (b : β) : Prop := keep b = k.inScript

theorem KeepsScripts.within {si : String} (hk : KeepsScripts r keep si) {k : Place} {p : Part}
    (hp : ∀ c, p ≠ .cls c) (h : AtPlace keep k b) : AtPlace keep k (r.enter b p) := (hk.other hp).trans h

theorem UpToType.settled {p : Part} (hp : p.takesParams = false) (ht : p.ownType? = none)
    (h : r.holds b p) (hcs : ∀ c ∈ p.children, UpToType r keep (r.enter b p) c) :
    Throughout (r.untyped keep) b p :=
  throughout_iff.2 ⟨⟨h, fun _ => ht⟩, fun c hc =>
    (hcs c hc).throughout (Part.ne_param_of_mem_children hp hc)⟩

theorem UpToType.untyped (hr : AdmitsGuards r) {q : Param} (h : r.holds b (.param q))
    (hcs : ∀ c ∈ (Part.param q).children, UpToType r keep (r.enter b (.param q)) c) :
    Throughout (r.untyped keep) b (.param (untyped q)) := by
  rw [r.enter_param] at hcs
  exact throughout_param.2 ⟨⟨hr.untyped h, fun _ => rfl⟩, fun c hc =>
    (hcs c hc).throughout (Part.ne_param_of_mem_children rfl hc)⟩

/-- A parameter whose type is kept. -/
theorem UpToType.kept {p : Part} (hb : keep b = true) (h : UpToType r keep b p) :
    Throughout (r.untyped keep) b p := by
  cases p with
  | param q =>
    exact throughout_param.2 ⟨⟨h.2, fun hb' => absurd (hb.symm.trans hb') nofun⟩, (throughout_param.1 h.1).2⟩
  | _ => exact h

/-- The parts of a function that gets guards. -/
theorem guarded_throughout (hr : AdmitsGuards r) (owner : String) {ps : List Param} (body : List Stmt)
    (h : ∀ c ∈ ps.map Part.param ++ Part.stmts body, UpToType r keep b c) :
    ∀ c ∈ (ps.map untyped).map Part.param ++ Part.stmts (guards owner ps ++ body),
      Throughout (r.untyped keep) b c := by
  intro c hc
  simp only [Part.stmts, List.map_map, List.map_append, List.mem_append, List.mem_map] at h hc
  rcases hc with ⟨p, hp, rfl⟩ | ⟨s, hs, rfl⟩ | ⟨s, hs, rfl⟩
  · exact (h (.param p) (.inl ⟨p, hp, rfl⟩)).1
  · exact guardsFrom_throughout hr (fun p hp => (h (.param p) (.inl ⟨p, hp, rfl⟩)).2) 0 s hs
  · exact h (.stmt s) (.inr ⟨s, hs, rfl⟩)

theorem guardedClosure_throughout (hr : AdmitsGuards r) {c : Closure} {owner : String}
    (h : r.holds b (.closure c))
    (hcs : ∀ q ∈ (Part.closure c).children, UpToType r keep (r.enter b (.closure c)) q) :
    Throughout (r.untyped keep) b (.closure
      { c with params := c.params.map untyped, body := guards owner c.params ++ c.body }) := by
  have hbare : (Part.closure { c with
      params := c.params.map untyped
      body := guards owner c.params ++ c.body }).bare = (Part.closure c).bare := by
    simp only [Part.bare, List.map_map]
    rfl
  rw [← r.enter_congr hbare] at hcs
  exact throughout_iff.2 ⟨⟨(r.holds_congr hbare).2 h, fun _ => rfl⟩, guarded_throughout hr owner c.body hcs⟩

theorem guardedMethod_throughout (hr : AdmitsGuards r) {m : Method} {owner : String}
    (h : r.holds b (.method m))
    (hcs : ∀ q ∈ (Part.method m).children, UpToType r keep (r.enter b (.method m)) q) :
    Throughout (r.untyped keep) b (.method { m with
      params := m.params.map untyped
      body := m.body.map (guards owner m.params ++ ·) }) := by
  have hbare : (Part.method { m with
      params := m.params.map untyped
      body := m.body.map (guards owner m.params ++ ·) }).bare = (Part.method m).bare := by
    simp only [Part.bare, List.map_map, Option.map_map]
    rfl
  rw [← r.enter_congr hbare] at hcs
  refine throughout_iff.2 ⟨⟨(r.holds_congr hbare).2 h, fun _ => rfl⟩, ?_⟩
  obtain ⟨n, ps, body, _, _, _, _⟩ := m
  cases body with
  | none =>
    refine fun c hc => guarded_throughout hr owner [] hcs c ?_
    exact List.mem_append_left _ (by simpa [Part.children, Part.stmts] using hc)
  | some body => exact guarded_throughout hr owner body hcs

/-- Types are dropped behind the pass, and the guards say nothing that the shape does not admit. -/
theorem typeGuards_sound (hr : AdmitsGuards r) {si : String} (hk : KeepsScripts r keep si) :
    Sound (.reading Place (.plain Unit)) (typeGuards si)
      (Carried (AtPlace keep) (Throughout r) (UpToType r keep))
      fun k e e' k' => Rebuilt (Carried (AtPlace keep) (Throughout r) (UpToType r keep))
        k (.expr e) (.expr e') k' where
  below _ h := h
  array hvs := Logic.map _ (VisitsItem.mapM hvs _) fun _ _ h => .array h
  store hv := hv.inOrder _
  expr h := Carried.edited (h _) rfl (fun hS => hk.within nofun hS) fun _ => .settled rfl rfl
  stmt h := Carried.edited (h _) rfl (fun hS => hk.within nofun hS) fun _ => .settled rfl rfl
  param h := Carried.edited (h _) rfl (fun hS => hk.within nofun hS) fun _ hold hcs =>
    ⟨UpToType.untyped hr hold hcs, hold⟩
  clause h := Carried.edited (h _) rfl (fun hS => hk.within nofun hS) fun _ => .settled rfl rfl
  closure h := Logic.bind _ (h _) fun c' k' hc' => by
    obtain rfl := hc'.same
    obtain ⟨_ | _, cls⟩ := k'
    · exact Carried.edited hc' rfl (fun hS => hk.within nofun hS) fun _ =>
        guardedClosure_throughout hr
    · exact Carried.edited hc' rfl (fun hS => hk.within nofun hS) fun hS hold hcs =>
        throughout_iff.2 ⟨⟨hold, fun _ => rfl⟩, fun q hq =>
          (hcs q hq).kept (hk.within (p := .closure c') nofun hS)⟩
  method h := Logic.bind _ (h _) fun m' k' hm' => by
    obtain rfl := hm'.same
    obtain ⟨_ | _, cls⟩ := k'
    · exact Carried.edited hm' rfl (fun hS => hk.within nofun hS) fun _ =>
        guardedMethod_throughout hr
    · exact Carried.edited hm' rfl (fun hS => hk.within nofun hS) fun hS hold hcs =>
        throughout_iff.2 ⟨⟨hold, fun _ => rfl⟩, fun q hq =>
          (hcs q hq).kept (hk.within (p := .method m') nofun hS)⟩
  cls h := Carried.entered (h _) rfl (fun _ => hk.cls) fun _ => .settled rfl rfl
  iface h := Carried.edited (h _) rfl (fun hS => hk.within nofun hS) fun _ => .settled rfl rfl

end Passes

end Simplify

end ClassScript
