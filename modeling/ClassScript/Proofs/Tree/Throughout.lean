import ClassScript.Proofs.Tree.Through
/-!
# What holds of all parts

A shape says what a part has to be like by itself, in a context that the parts above it make.
`Throughout` asks it of a part and of all below it, each in its own context.

A pass that takes one shape to another does so through what it makes of the single parts: the
children of a rebuilt part are settled by what became of them, and what is left is the part itself
(`Carried.rebuilt`).
-/

namespace ClassScript

/-! ## Parts in context -/

/-- The part and all parts below it, each with its context and before its children. `enter` gives
the context of the children. -/
def Part.within {β : Type} (enter : β → Part → β) (b : β) (p : Part) : List (β × Part) :=
  p.fold (fun p below b => (b, p) :: (below.map (· (enter b p))).flatten) b

theorem Part.within_eq {β : Type} (enter : β → Part → β) (b : β) (p : Part) :
    p.within enter b = (b, p) :: p.children.flatMap (·.within enter (enter b p)) := by
  rw [within, fold_eq, List.map_map, List.flatMap_def]
  rfl

/-- All parts of a file in context. -/
def SourceFile.within {β : Type} (enter : β → Part → β) (b : β) (f : SourceFile) :
    List (β × Part) := (Part.stmts f.stmts).flatMap (·.within enter b)

/-! ## Shapes -/

/-- What each part has to be like, not counting the parts below it. Expressions, statements and
parameters make no context of their own. -/
structure Shape (β : Type) where
  enter : β → Part → β
  holds : β → Part → Prop
  enter_expr : ∀ b e, enter b (.expr e) = b
  enter_stmt : ∀ b s, enter b (.stmt s) = b
  enter_param : ∀ b p, enter b (.param p) = b
  enter_bare : ∀ b p, enter b p.bare = enter b p
  holds_bare : ∀ b p, holds b p.bare ↔ holds b p

namespace Shape

variable {β : Type}

theorem enter_congr (r : Shape β) {p p' : Part} (h : p'.bare = p.bare) (b : β) :
    r.enter b p' = r.enter b p := by rw [← r.enter_bare, h, r.enter_bare]

theorem holds_congr (r : Shape β) {p p' : Part} (h : p'.bare = p.bare) {b : β} :
    r.holds b p' ↔ r.holds b p := by rw [← r.holds_bare, h, r.holds_bare]

/-- The shape and a condition on top of it. -/
def and (r : Shape β) (P : β → Part → Prop) (hP : ∀ b p, P b p.bare ↔ P b p) : Shape β where
  enter := r.enter
  holds b p := r.holds b p ∧ P b p
  enter_expr := r.enter_expr
  enter_stmt := r.enter_stmt
  enter_param := r.enter_param
  enter_bare := r.enter_bare
  holds_bare b p := and_congr (r.holds_bare b p) (hP b p)

end Shape

/-- The part and all below it have the shape. -/
def Throughout {β : Type} (r : Shape β) (b : β) (p : Part) : Prop :=
  ∀ x ∈ p.within r.enter b, r.holds x.1 x.2

section Throughout

variable {β γ : Type} {r : Shape β} {b : β} {p : Part}

theorem throughout_iff :
    Throughout r b p ↔ r.holds b p ∧ ∀ c ∈ p.children, Throughout r (r.enter b p) c := by
  rw [Throughout, Part.within_eq, List.forall_mem_cons]
  simp only [List.mem_flatMap, forall_exists_index, and_imp, Throughout]
  exact and_congr_right fun _ => forall_comm.trans (forall_congr' fun _ => forall_comm)

theorem throughout_expr {e : Expr} : Throughout r b (.expr e) ↔
    r.holds b (.expr e) ∧ ∀ c ∈ (Part.expr e).children, Throughout r b c := by
  rw [throughout_iff, r.enter_expr]

theorem throughout_stmt {s : Stmt} : Throughout r b (.stmt s) ↔
    r.holds b (.stmt s) ∧ ∀ c ∈ (Part.stmt s).children, Throughout r b c := by
  rw [throughout_iff, r.enter_stmt]

theorem throughout_param {q : Param} : Throughout r b (.param q) ↔
    r.holds b (.param q) ∧ ∀ c ∈ (Part.param q).children, Throughout r b c := by
  rw [throughout_iff, r.enter_param]

theorem Throughout.head (h : Throughout r b p) : r.holds b p := (throughout_iff.1 h).1

theorem Throughout.child (h : Throughout r b p) {c : Part} (hc : c ∈ p.children) :
    Throughout r (r.enter b p) c := (throughout_iff.1 h).2 c hc

/-- A shape that asks for less, in a context that stands in a relation to the first one. -/
theorem Throughout.imp {r' : Shape γ} (S : β → γ → Prop)
    (henter : ∀ {b c p}, S b c → r.holds b p → S (r.enter b p) (r'.enter c p))
    (hholds : ∀ {b c p}, S b c → r.holds b p → r'.holds c p) {c : γ} (h : Throughout r b p)
    (hS : S b c) : Throughout r' c p := by
  induction p using Part.induction generalizing b c with
  | step p ih =>
    exact throughout_iff.2 ⟨hholds hS h.head, fun d hd => ih d hd (h.child hd) (henter hS h.head)⟩

/-- Of all parts, without their contexts. -/
theorem forall_mem_all_iff {P : Part → Prop} :
    (∀ q ∈ p.all, P q) ↔ P p ∧ ∀ c ∈ p.children, ∀ q ∈ c.all, P q := by
  rw [Part.all_eq, List.forall_mem_cons]
  simp only [List.mem_flatMap, forall_exists_index, and_imp]
  exact and_congr_right fun _ => forall_comm.trans (forall_congr' fun _ => forall_comm)

theorem Throughout.all {P : Part → Prop} (hP : ∀ {b p}, r.holds b p → P p) (h : Throughout r b p) :
    ∀ q ∈ p.all, P q := by
  induction p using Part.induction generalizing b with
  | step p ih => exact forall_mem_all_iff.2 ⟨hP h.head, fun c hc => ih c hc (h.child hc)⟩

theorem throughout_of_all (h : ∀ q ∈ p.all, ∀ b, r.holds b q) : Throughout r b p := by
  induction p using Part.induction generalizing b with
  | step p ih =>
    obtain ⟨hp, hcs⟩ := forall_mem_all_iff.1 h
    exact throughout_iff.2 ⟨hp b, fun c hc => ih c hc (hcs c hc)⟩

/-- A class or interface that is declared in a file. -/
def declaredPart : Class ⊕ Interface → Part
  | .inl c => .cls c
  | .inr i => .iface i

mutual

theorem throughout_declarations : (s : Stmt) → Throughout r b (.stmt s) →
    ∀ d ∈ s.declarations, Throughout r b (declaredPart d)
  | .classDecl c, h => by
    rintro _ (_ | ⟨_, ⟨⟩⟩)
    exact (throughout_stmt.1 h).2 _ (.head _)
  | .interfaceDecl i, h => by
    rintro _ (_ | ⟨_, ⟨⟩⟩)
    exact (throughout_stmt.1 h).2 _ (.head _)
  | .nsBlock _ _ body _, h => throughout_declarationsOf body fun s hs =>
    (throughout_stmt.1 h).2 _ (List.mem_map_of_mem hs)
  | .expression _, _ | .echo .., _ | .ret .., _ | .branch .., _ | .whileLoop .., _ | .forLoop .., _
  | .foreach .., _ | .breakLoop _, _ | .continueLoop _, _ | .throwValue .., _ | .tryCatch .., _
  | .block .., _ | .imports .., _ | .functionDecl .., _ | .nop _, _ => nofun

theorem throughout_declarationsOf : (ss : List Stmt) → (∀ s ∈ ss, Throughout r b (.stmt s)) →
    ∀ d ∈ declarationsOf ss, Throughout r b (declaredPart d)
  | [], _ => nofun
  | s :: rest, h => List.forall_mem_append.2
    ⟨throughout_declarations s (h s (.head _)),
      throughout_declarationsOf rest fun t ht => h t (.tail _ ht)⟩

end

end Throughout

/-! ## Shapes and passes -/

/-- What holds of a part before the pass makes something hold of those it becomes. `S` relates the
place in the pass to the contexts that may be met there. -/
structure Carried {κ β : Type} (S : κ → β → Prop) (T T' : β → Part → Prop) (k : κ) (p : Part)
    (ps : List Part) (k' : κ) : Prop where
  same : k' = k
  each : ∀ {b}, S k b → T b p → ∀ p' ∈ ps, T' b p'
  stub : ∀ {p'}, ps = [p'] → p'.stub = p.stub

section Carried

variable {κ β : Type} {S : κ → β → Prop} {T T' : β → Part → Prop} {k k' : κ} {p p' : Part} {b : β}

theorem Carried.keepsStubs : Change.KeepsStubs (Carried S T T') := fun h => h.stub rfl

/-- One part becomes one part. -/
theorem Carried.one (hstub : p'.stub = p.stub) (h : ∀ {b}, S k b → T b p → T' b p') :
    Carried S T T' k p [p'] k where
  same := rfl
  each hS hT _ hq := List.mem_singleton.1 hq ▸ h hS hT
  stub hq := (List.singleton_inj.1 hq) ▸ hstub

theorem Carried.stmts {s : Stmt} {ss : List Stmt}
    (h : ∀ {b}, S k b → T b (.stmt s) → ∀ s' ∈ ss, T' b (.stmt s')) :
    Carried S T T' k (.stmt s) (Part.stmts ss) k where
  same := rfl
  each hS hT q hq := by
    obtain ⟨s', hs', rfl⟩ := List.mem_map.1 hq
    exact h hS hT s' hs'
  stub hq := by
    obtain ⟨s', _, rfl⟩ := List.map_eq_singleton_iff.1 hq
    rfl

theorem Carried.ofStmts {ss ss' : List Stmt} (h : Change.Stmts (Carried S T T') k ss ss' k') (hS : S k b)
    (hss : ∀ s ∈ ss, T b (.stmt s)) : ∀ s ∈ ss', T' b (.stmt s) := by
  intro s hs
  obtain ⟨_, hp, _, hR, hmem⟩ := h.chunks.mem_of_same Carried.same (List.mem_map_of_mem hs)
  obtain ⟨s₀, hs₀, rfl⟩ := List.mem_map.1 hp
  exact hR.each hS (hss s₀ hs₀) _ hmem

/-- Where the contexts do not depend on the place in the pass, it does not matter. -/
theorem Carried.elsewhere {P : β → Prop} {ps : List Part} (h : Carried (fun _ => P) T T' k p ps k')
    (k₁ : κ) : Carried (fun _ => P) T T' k₁ p ps k₁ := ⟨rfl, h.each, h.stub⟩

namespace Rebuilt

variable (h : Rebuilt (Carried S T T') k p p' k')

include h

theorem same : k' = k := h.children.same Carried.same

theorem bare_carried : p'.bare = p.bare := h.bare_eq Carried.keepsStubs

theorem stub_carried : p'.stub = p.stub := by
  rw [← p'.stub_bare, h.bare_carried, p.stub_bare]

theorem children_carried (hS : S k b) (hT : ∀ c ∈ p.children, T b c) : ∀ c ∈ p'.children, T' b c := by
  intro c' hc'
  obtain ⟨c, hc, cs, hR, hmem⟩ := h.children.mem_of_same Carried.same hc'
  exact hR.each hS (hT c hc) c' hmem

end Rebuilt

variable {r r' : Shape β}

/-- A part in place of the rebuilt one, if it is settled once the children are. The children may be
visited at a place of their own. -/
theorem Carried.entered {k₁ : κ} {q : Part} (h : Rebuilt (Carried S (Throughout r) T') k₁ p p' k')
    (hstub : q.stub = p'.stub) (hS : ∀ {b}, S k b → S k₁ (r.enter b p))
    (hq : ∀ {b}, S k b → r.holds b p' → (∀ c ∈ p'.children, T' (r.enter b p') c) → T' b q) :
    Carried S (Throughout r) T' k p [q] k := by
  refine .one (hstub.trans h.stub_carried) fun {b} hSb hT => hq hSb ?_ ?_
  · exact (r.holds_congr h.bare_carried).2 hT.head
  · rw [r.enter_congr h.bare_carried]
    exact h.children_carried (hS hSb) fun c hc => hT.child hc

theorem Carried.edited {q : Part} (h : Rebuilt (Carried S (Throughout r) T') k p p' k')
    (hstub : q.stub = p'.stub) (hS : ∀ {b}, S k b → S k (r.enter b p))
    (hq : ∀ {b}, S k b → r.holds b p' → (∀ c ∈ p'.children, T' (r.enter b p') c) → T' b q) :
    Carried S (Throughout r) T' k p [q] k' := by
  cases h.same
  exact .entered h hstub hS hq

/-- The rebuilt part itself, if what it says is settled. -/
theorem Carried.rebuilt (h : Rebuilt (Carried S (Throughout r) (Throughout r')) k p p' k')
    (henter : ∀ {b}, r'.enter b p = r.enter b p) (hS : ∀ {b}, S k b → S k (r.enter b p))
    (hholds : ∀ {b}, S k b → r.holds b p → r'.holds b p) :
    Carried S (Throughout r) (Throughout r') k p [p'] k' :=
  Carried.edited h rfl hS fun hSb hr hcs => throughout_iff.2 <| by
    rw [r'.holds_congr h.bare_carried, r'.enter_congr h.bare_carried, henter,
      ← r.enter_congr h.bare_carried]
    exact ⟨hholds hSb ((r.holds_congr h.bare_carried).1 hr), hcs⟩

/-- Statements in place of the rebuilt one. -/
theorem Carried.editedStmts {s s' : Stmt} {ss : List Stmt}
    (h : Rebuilt (Carried S (Throughout r) T') k (.stmt s) (.stmt s') k')
    (hss : ∀ {b}, S k b → r.holds b (.stmt s') → (∀ c ∈ (Part.stmt s').children, T' b c) →
      ∀ t ∈ ss, T' b (.stmt t)) :
    Carried S (Throughout r) T' k (.stmt s) (Part.stmts ss) k' := by
  cases h.same
  refine .stmts fun {b} hSb hT => hss hSb ?_ ?_
  · exact (r.holds_congr h.bare_carried).2 hT.head
  · exact h.children_carried hSb (throughout_stmt.1 hT).2

/-- The shapes before and behind a pass, in every context. -/
abbrev Turned (r r' : Shape β) : Change κ := Carried (fun _ _ => True) (Throughout r) (Throughout r')

theorem Turned.rebuilt (h : Rebuilt (Turned r r') k p p' k')
    (henter : ∀ {b}, r'.enter b p = r.enter b p) (hholds : ∀ {b}, r.holds b p → r'.holds b p) :
    Turned r r' k p [p'] k' := Carried.rebuilt h henter (fun _ => trivial) fun _ => hholds

theorem Turned.expr {e e' e'' : Expr} (h : Rebuilt (Turned r r') k (.expr e) (.expr e') k')
    (hstub : e''.stub = e'.stub)
    (he : ∀ {b}, r.holds b (.expr e') → (∀ c ∈ (Part.expr e').children, Throughout r' b c) →
      Throughout r' b (.expr e'')) :
    Turned r r' k (.expr e) [.expr e''] k' :=
  Carried.edited h (congrArg Part.expr hstub) (fun _ => trivial) fun _ hr hcs =>
    he hr (by rwa [r.enter_expr] at hcs)

end Carried

end ClassScript
