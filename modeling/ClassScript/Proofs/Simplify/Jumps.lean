import ClassScript.Proofs.Simplify.Arrays
import ClassScript.Proofs.Tree.Edited
/-!
# Jumps and callbacks

A `break`, a `continue` or a `return` is a jump. Which loop or function it leaves is told by the loops around it,
counted up to the closure it stands in (`Part.jumps`).

The body of a loop over elements becomes the body of a callback. Outside of closures the jumps that are in no
other loop become returns and assignments are marked, and nothing else is changed (`Callback`). The pass for bodies
does this (`callbackBody_ok`) or meets a return (`callbackBody_error`).
-/

namespace ClassScript

namespace Part

/-! ## Jumps -/

/-- The loops around the parts below a part that has `k` of them around itself. -/
def loopsBelow (k : Nat) : Part → Nat
  | .stmt (.whileLoop ..) | .stmt (.forLoop ..) => k + 1
  | _ => k

/-- Whether a part keeps the jumps below it to itself. A closure does; a loop over elements does as long as there are
such loops. -/
def ownsJumps (withElements : Bool) : Part → Bool
  | .closure _ => true
  | .stmt (.foreach ..) => withElements
  | _ => false

def jump? : Part → Option Stmt
  | .stmt (.breakLoop p) => some (.breakLoop p)
  | .stmt (.continueLoop p) => some (.continueLoop p)
  | .stmt (.ret p v) => some (.ret p v)
  | _ => none

/-- The jumps of a part that has `k` loops around it, each with the loops around it. -/
def jumps (withElements : Bool) (k : Nat) (p : Part) : List (Nat × Stmt) :=
  p.fold (fun p (below : List (Nat → List (Nat × Stmt))) k =>
    if p.ownsJumps withElements then []
    else (p.jump?.map (k, ·)).toList ++ (below.map (· (p.loopsBelow k))).flatten) k

variable {w : Bool} {k : Nat} {p : Part}

theorem jumps_eq : p.jumps w k =
    if p.ownsJumps w then []
    else (p.jump?.map (k, ·)).toList ++ p.children.flatMap (·.jumps w (p.loopsBelow k)) := by
  rw [jumps, fold_eq, List.map_map, List.flatMap_def]
  rfl

theorem jumps_of_owns (h : p.ownsJumps w = true) : p.jumps w k = [] := by rw [jumps_eq, if_pos h]

theorem jumps_of_not_owns (h : p.ownsJumps w = false) :
    p.jumps w k = (p.jump?.map (k, ·)).toList ++ p.children.flatMap (·.jumps w (p.loopsBelow k)) := by
  rw [jumps_eq, if_neg (Bool.eq_false_iff.1 h)]

theorem jumps_stmt {s : Stmt} : (Part.stmt s).jumps w k =
    if (Part.stmt s).ownsJumps w then []
    else ((Part.stmt s).jump?.map (k, ·)).toList ++
      (Part.stmt s).children.flatMap (·.jumps w ((Part.stmt s).loopsBelow k)) := jumps_eq

/-- The statements in an expression are those of closures. -/
@[simp]
theorem jumps_expr (e : Expr) : (Part.expr e).jumps w k = [] := by
  -- The induction is on parts, of which an expression is one.
  obtain ⟨p, hp⟩ : ∃ p, p = Part.expr e := ⟨_, rfl⟩
  induction p using Part.induction generalizing e with
  | step p ih =>
    subst hp
    rw [jumps_of_not_owns rfl]
    refine List.append_eq_nil_iff.2 ⟨rfl, List.flatMap_eq_nil_iff.2 fun c hc => ?_⟩
    rcases mem_ofExpr.1 hc with ⟨e', _, rfl⟩ | ⟨_, f, _, rfl⟩
    · exact ih _ hc e' rfl
    · exact jumps_of_owns rfl

end Part

/-- The jumps of statements that no loop is around. -/
def jumpsIn (withElements : Bool) (ss : List Stmt) : List (Nat × Stmt) :=
  (Part.stmts ss).flatMap (·.jumps withElements 0)

def Stmt.IsReturn (s : Stmt) : Prop := ∃ p v, s = .ret p v

/-- The statements return outside of closures. -/
def Returns (ss : List Stmt) : Prop := ∃ x ∈ jumpsIn false ss, x.2.IsReturn

theorem flatMap_eq_of_forall₂ {α β : Type} {f g : α → List β} {φ : β → β} {as bs : List α}
    (h : List.Forall₂ (fun a b => g b = (f a).map φ) as bs) : bs.flatMap g = (as.flatMap f).map φ := by
  induction h with
  | nil => rfl
  | cons hab _ ih => rw [List.flatMap_cons, List.flatMap_cons, List.map_append, hab, ih]

section Rebuilt

variable {κ : Type} {R : Change κ} {k k' : κ} {p p' : Part} (h : Rebuilt R k p p' k')

include h

theorem Rebuilt.loopsBelow_eq (n : Nat) : p'.loopsBelow n = p.loopsBelow n := by cases h <;> rfl

theorem Rebuilt.ownsJumps_eq (w : Bool) : p'.ownsJumps w = p.ownsJumps w := by cases h <;> rfl

theorem Rebuilt.jump?_eq (hp : ∀ s ∈ p.jump?, ¬s.IsReturn) : p'.jump? = p.jump? := by
  cases h with
  | ret => exact absurd ⟨_, _, rfl⟩ (hp _ rfl)
  | _ => rfl

end Rebuilt

namespace Simplify

/-! ## Callbacks -/

/-- A statement of a callback that has `k` loops around it: to go on is to return, and to break is to return
`false`. -/
def turned (k : Nat) : Stmt → Stmt
  | .continueLoop p => if k = 0 then .ret p none else .continueLoop p
  | .breakLoop p => if k = 0 then .ret p (some (.bool p false)) else .breakLoop p
  | s => s

def asCallback (k : Nat) : Part → Part
  | .expr e => .expr (inCallback e)
  | .stmt s => .stmt (turned k s)
  | p => p

/-- A part of a body and the part of the callback that it becomes, with `k` loops around it. A closure stays; any
other part has its children changed, and then is changed itself. -/
def Callback (k : Nat) (p p' : Part) : Prop :=
  if p.ownsJumps false then p' = p
  else ∃ q, Rebuilt (Childwise fun c c' => ∃ _ : c ∈ p.children, Callback (p.loopsBelow k) c c') () p q () ∧
    p' = asCallback k q
termination_by p.size
decreasing_by exact Part.size_lt_of_mem_children ‹_›

section Callback

variable {k : Nat} {p p' : Part}

theorem callback_iff_of_owns (h : p.ownsJumps false = true) : Callback k p p' ↔ p' = p := by
  rw [Callback, if_pos h]

theorem callback_iff_of_not_owns (h : p.ownsJumps false = false) : Callback k p p' ↔
    ∃ q, Rebuilt (Childwise (Callback (p.loopsBelow k))) () p q () ∧ p' = asCallback k q := by
  rw [Callback, if_neg (Bool.eq_false_iff.1 h)]
  refine exists_congr fun q => and_congr_left fun _ => ⟨fun h => ?_, fun h => ?_⟩
  · exact h.steady (fun _ => rfl) fun c _ _ ⟨c', hcs, _, hc'⟩ => ⟨c', hcs, hc'⟩
  · exact h.steady (fun _ => rfl) fun c hc _ ⟨c', hcs, hc'⟩ => ⟨c', hcs, hc, hc'⟩

theorem jumps_asCallback {q : Part} (howns : q.ownsJumps false = false) :
    (asCallback k q).jumps false k =
      (q.jump?.map fun s => (k, turned k s)).toList ++ q.children.flatMap (·.jumps false (q.loopsBelow k)) := by
  cases q with
  | expr e =>
    have hchildren := (Part.jumps_of_not_owns howns).symm.trans (Part.jumps_expr (w := false) (k := k) e)
    exact (Part.jumps_expr _).trans hchildren.symm
  | stmt s =>
    cases s with
    | breakLoop | continueLoop =>
      cases k with
      | zero =>
        rw [asCallback, turned, if_pos rfl, Part.jumps_of_not_owns rfl]
        simp [Part.jump?, Part.children, Part.ofStmt, Part.exprs, turned]
      | succ => exact Part.jumps_of_not_owns rfl
    | _ => exact Part.jumps_of_not_owns rfl
  | closure => cases howns
  | _ => exact Part.jumps_of_not_owns rfl

/-- The jumps of a callback are those of the body, turned. -/
theorem Callback.jumps_eq (h : Callback k p p') (hp : ∀ x ∈ p.jumps false k, ¬x.2.IsReturn) :
    p'.jumps false k = (p.jumps false k).map fun x => (x.1, turned x.1 x.2) := by
  induction p using Part.induction generalizing k p' with
  | step p ih =>
    cases howns : p.ownsJumps false with
    | true =>
      rw [callback_iff_of_owns howns] at h
      rw [h, Part.jumps_of_owns howns, List.map_nil]
    | false =>
      obtain ⟨q, hq, rfl⟩ := (callback_iff_of_not_owns howns).1 h
      rw [Part.jumps_of_not_owns howns] at hp ⊢
      obtain ⟨hhead, hcs⟩ := List.forall_mem_append.1 hp
      -- A jump that does not return has nothing below it, so it is rebuilt as it was.
      have hjump : q.jump? = p.jump? := hq.jump?_eq fun s hs => hhead (k, s) (by simp [Option.mem_def.1 hs])
      have hturned : Rebuilt (Childwise fun c c' => c'.jumps false (p.loopsBelow k) =
          (c.jumps false (p.loopsBelow k)).map fun x => (x.1, turned x.1 x.2)) () p q () := by
        refine hq.steady (fun _ => rfl) fun c hc _ ⟨c', hcs', hc'⟩ => ⟨c', hcs', ih c hc hc' fun x hx => ?_⟩
        exact hcs x (List.mem_flatMap.2 ⟨c, hc, hx⟩)
      rw [jumps_asCallback (by rw [hq.ownsJumps_eq, howns]), hjump, hq.loopsBelow_eq,
        flatMap_eq_of_forall₂ hturned.children.forall₂, List.map_append]
      cases p.jump? <;> rfl

theorem mem_children_asCallback {q c : Part} (h : c ∈ (asCallback k q).children) :
    c ∈ q.children ∨ ∃ p, c = .expr (.bool p false) := by
  cases q with
  | expr e => exact .inl (inCallback_children e ▸ h)
  | stmt s =>
    cases s with
    | breakLoop p =>
      by_cases hk : k = 0
      · rw [asCallback, turned, if_pos hk] at h
        exact .inr ⟨p, List.mem_singleton.1 h⟩
      · rw [asCallback, turned, if_neg hk] at h
        exact .inl h
    | continueLoop p =>
      by_cases hk : k = 0
      · rw [asCallback, turned, if_pos hk] at h
        cases h
      · rw [asCallback, turned, if_neg hk] at h
        exact .inl h
    | _ => exact .inl h
  | _ => exact .inl h

/-- A callback has no closures but those of the body. -/
theorem Callback.closure_mem_all (h : Callback k p p') {c : Closure} (hc : .closure c ∈ p'.all) :
    .closure c ∈ p.all := by
  induction p using Part.induction generalizing k p' with
  | step p ih =>
    cases howns : p.ownsJumps false with
    | true => exact (callback_iff_of_owns howns).1 h ▸ hc
    | false =>
      obtain ⟨q, hq, rfl⟩ := (callback_iff_of_not_owns howns).1 h
      rw [Part.all_eq] at hc
      rcases List.mem_cons.1 hc with hc | hc
      · have hnot : q.ownsJumps false = false := (hq.ownsJumps_eq _).trans howns
        cases q with
        | closure => cases hnot
        | _ => cases hc
      · obtain ⟨d', hd', hc⟩ := List.mem_flatMap.1 hc
        rcases mem_children_asCallback hd' with hd' | ⟨_, rfl⟩
        · obtain ⟨d, hd, _, ⟨_, rfl, hcallback⟩, hmem⟩ := hq.children.mem_of_same (fun _ => rfl) hd'
          cases List.mem_singleton.1 hmem
          exact Part.all_subset_of_mem_children hd (ih d hd hcallback hc)
        · -- The one child that is new is the `false` that a `break` returns.
          rw [Part.all_eq] at hc
          rcases List.mem_cons.1 hc with hc | hc <;> cases hc

end Callback

/-! ## Bodies that become callbacks -/

/-- What the pass for bodies makes of a part, with `k` loops around it. -/
structure Turns (k : Nat) (p : Part) (ps : List Part) (k' : Nat) : Prop where
  same : k' = k
  callback : ∃ p', ps = [p'] ∧ Callback k p p'
  returnless : ∀ x ∈ p.jumps false k, ¬x.2.IsReturn

/-- A part with turned children, as it is in a callback. -/
theorem Turns.asCallback {k n n' : Nat} {p q : Part} (h : Rebuilt Turns n p q n') (hloops : p.loopsBelow k = n)
    (howns : p.ownsJumps false = false) (hp : ∀ s ∈ p.jump?, ¬s.IsReturn) :
    Turns k p [asCallback k q] k where
  same := rfl
  callback := by
    refine ⟨_, rfl, (callback_iff_of_not_owns howns).2 ⟨q, ?_, rfl⟩⟩
    rw [hloops]
    exact h.steady Turns.same fun _ _ _ hc => hc.callback
  returnless := by
    rw [Part.jumps_of_not_owns howns, hloops]
    refine List.forall_mem_append.2 ⟨fun x hx => ?_, fun x hx => ?_⟩
    · obtain ⟨s, hs, rfl⟩ := Option.map_eq_some_iff.1 (Option.mem_toList.1 hx)
      exact hp s hs
    · obtain ⟨c, hc, hx⟩ := List.mem_flatMap.1 hx
      obtain ⟨_, hcs⟩ := h.children.exists_of_same Turns.same hc
      exact hcs.returnless x hx

theorem asCallback_of_rebuilt {κ : Type} {R : Change κ} {k k' : κ} {p q : Part} (h : Rebuilt R k p q k') (n : Nat)
    (hexpr : ∀ e, p ≠ .expr e) (hjump : p.jump? = none) : asCallback n q = q := by
  cases h with
  | leaf =>
    cases p with
    | expr e => exact absurd rfl (hexpr e)
    | stmt s =>
      cases s with
      | breakLoop | continueLoop => cases hjump
      | _ => rfl
    | _ => rfl
  | _ => first | rfl | exact absurd rfl (hexpr _)

/-- A part that is in a callback what it is in the body. -/
theorem Turns.entered {k n n' : Nat} {p q : Part} (h : Rebuilt Turns n p q n') (hloops : p.loopsBelow k = n)
    (howns : p.ownsJumps false = false) (hexpr : ∀ e, p ≠ .expr e) (hjump : p.jump? = none) :
    Turns k p [q] k := by
  have hturns := Turns.asCallback h hloops howns (by simp [hjump])
  rwa [asCallback_of_rebuilt h k hexpr hjump] at hturns

theorem Turns.rebuilt {k k' : Nat} {p q : Part} (h : Rebuilt Turns k p q k') (hloops : p.loopsBelow k = k)
    (howns : p.ownsJumps false = false) (hexpr : ∀ e, p ≠ .expr e) (hjump : p.jump? = none) :
    Turns k p [q] k' := by
  cases h.children.same Turns.same
  exact .entered h hloops howns hexpr hjump

theorem Turns.closure {k : Nat} {c : Closure} : Turns k (.closure c) [.closure c] k where
  same := rfl
  callback := ⟨_, rfl, (callback_iff_of_owns rfl).2 rfl⟩
  returnless := by
    rw [Part.jumps_of_owns rfl]
    exact List.forall_mem_nil _

theorem callbackBody_turns : Sound (.reading Nat (.unlessFailed Fault Unit)) callbackBody Turns
    fun k e e' k' => Rebuilt Turns k (.expr e) (.expr e') k' where
  below _ h := h
  array hvs := Logic.map _ (VisitsItem.mapM hvs _) fun _ _ h => .array h
  store hv := hv.inOrder _
  expr h := Logic.bind _ (h _) fun e₁ _ he₁ => by
    cases he₁.children.same Turns.same
    have hturns : Turns _ _ [.expr (inCallback e₁)] _ := .asCallback he₁ rfl rfl nofun
    cases e₁ with
    | assign p t v d => cases t <;> exact Logic.pure _ hturns
    | _ => exact Logic.pure _ hturns
  stmt {k st _} h := by
    cases st with
    | continueLoop p =>
      have hturns : Turns k (.stmt (.continueLoop p)) _ k :=
        .asCallback (.leaf rfl) rfl rfl (by simp [Part.jump?, Stmt.IsReturn])
      cases k <;> (rintro _ ⟨⟩; exact hturns)
    | breakLoop p =>
      have hturns : Turns k (.stmt (.breakLoop p)) _ k :=
        .asCallback (.leaf rfl) rfl rfl (by simp [Part.jump?, Stmt.IsReturn])
      cases k <;> (rintro _ ⟨⟩; exact hturns)
    | ret p v => exact fun _ => nofun
    | whileLoop | forLoop =>
      -- What is below is read with one loop more, and the count is `k` again behind it.
      have loop := (Logic.reading Nat (.unlessFailed Fault Unit)).weaken (h (k + 1)) fun _ _ hst =>
        Turns.entered hst rfl rfl nofun rfl
      exact Logic.bind _ loop fun _ _ hst => Logic.pure _ hst
    | _ => exact Logic.bind _ (h _) fun _ _ hst => Logic.pure _ (.rebuilt hst rfl rfl nofun rfl)
  param h := Logic.weaken _ (h _) fun _ _ hp => .rebuilt hp rfl rfl nofun rfl
  closure h := Logic.pure _ .closure
  clause h := Logic.weaken _ (h _) fun _ _ hc => .rebuilt hc rfl rfl nofun rfl
  method h := Logic.weaken _ (h _) fun _ _ hm => .rebuilt hm rfl rfl nofun rfl
  cls h := Logic.weaken _ (h _) fun _ _ hc => .rebuilt hc rfl rfl nofun rfl
  iface h := Logic.weaken _ (h _) fun _ _ hi => .rebuilt hi rfl rfl nofun rfl

theorem callbackBody_ok {ss ss' : List Stmt} (h : (stmtsThrough callbackBody ss).run 0 = .ok ss') :
    ¬Returns ss ∧ List.Forall₂ (Callback 0) (Part.stmts ss) (Part.stmts ss') := by
  have hss : Change.Stmts Turns 0 ss ss' 0 := callbackBody_turns.stmts ss 0 ss' h
  constructor
  · rintro ⟨x, hx, hreturn⟩
    obtain ⟨p, hp, hx⟩ := List.mem_flatMap.1 hx
    obtain ⟨_, hturns⟩ := hss.chunks.exists_of_same Turns.same hp
    exact hturns.returnless x hx hreturn
  · have hchildwise : Change.Stmts (Childwise (Callback 0)) () ss ss' () :=
      hss.steady Turns.same fun _ _ _ hs => hs.callback
    exact hchildwise.chunks.forall₂

/-- The jumps of the callback that a body becomes. -/
theorem jumpsIn_callback {ss ss' : List Stmt} (h : List.Forall₂ (Callback 0) (Part.stmts ss) (Part.stmts ss'))
    (hss : ¬Returns ss) : jumpsIn false ss' = (jumpsIn false ss).map fun x => (x.1, turned x.1 x.2) := by
  have hp : ∀ x ∈ jumpsIn false ss, ¬x.2.IsReturn := fun x hx hreturn => hss ⟨x, hx, hreturn⟩
  unfold jumpsIn at hp ⊢
  generalize Part.stmts ss = ps at h hp
  generalize Part.stmts ss' = ps' at h
  induction h with
  | nil => rfl
  | cons hc _ ih =>
    rw [List.flatMap_cons, List.forall_mem_append] at hp
    rw [List.flatMap_cons, List.flatMap_cons, List.map_append, hc.jumps_eq hp.1, ih hp.2]

end Simplify

/-! ## Bodies that return -/

namespace Logic

/-- How an action ends: it gives a value, or it fails in an expected way and would have given one. -/
def Ends {ε α : Type} (E : ε → Prop) (Q : α → Bool → Prop) : Except ε α → Prop
  | .ok a => Q a false
  | .error e => E e ∧ ∃ a, Q a true

/-- Of what an action gives, or would give if it had not failed. What is known is whether something failed. -/
def failing (ρ : Type) {ε : Type} (E : ε → Prop) : Logic (ReaderT ρ (Except ε)) Bool where
  Gives failed act Q := match failed with
    | true => ∃ a, Q a true
    | false => ∀ r, Ends E Q (act.run r)
  weaken {_ failed act _ _} h hQ := by
    cases failed with
    | true => exact h.imp fun a => hQ a true
    | false =>
      intro r
      have hact := h r
      generalize act.run r = x at hact
      cases x with
      | error e => exact hact.imp_right (.imp fun a => hQ a true)
      | ok a => exact hQ a false hact
  pure {_ failed a _} h := by
    cases failed with
    | true => exact ⟨a, h⟩
    | false => exact fun _ => h
  bind {_ _ failed act f _ Q} h hf := by
    cases failed with
    | true =>
      obtain ⟨a, ha⟩ := h
      exact hf a true ha
    | false =>
      intro r
      have hact := h r
      change Ends E Q (act.run r >>= fun a => (f a).run r)
      generalize act.run r = x at hact
      cases x with
      | error e =>
        -- The rest is not run, but it is known what it gives where something failed.
        obtain ⟨he, a, ha⟩ := hact
        exact ⟨he, hf a true ha⟩
      | ok a => exact hf a false hact r
  map {_ _ failed act f _ Q} h hf := by
    cases failed with
    | true => exact h.imp' f fun a => hf a true
    | false =>
      intro r
      have hact := h r
      change Ends E Q (f <$> act.run r)
      generalize act.run r = x at hact
      cases x with
      | error e => exact hact.imp_right (.imp' f fun a => hf a true)
      | ok a => exact hf a false hact

/-- It does not matter what is read. -/
theorem failing_withReader {ρ ε α : Type} {E : ε → Prop} {failed : Bool} {act : ReaderT ρ (Except ε) α}
    {Q : α → Bool → Prop} (h : (failing ρ E).Gives failed act Q) {f : ρ → ρ} :
    (failing ρ E).Gives failed (withReader f act) Q := by
  cases failed with
  | true => exact h
  | false => exact fun r => h (f r)

end Logic

namespace Simplify

/-- If the pass for bodies fails at a part, the part returns. -/
def Breaks (failed : Bool) (p : Part) (_ : List Part) (failed' : Bool) : Prop :=
  failed = false → failed' = true → ∀ k, ∃ x ∈ p.jumps false k, x.2.IsReturn

theorem Breaks.exists_mem {failed failed' : Bool} {ps ps' : List Part} (h : Chunks Breaks failed ps ps' failed')
    (hf : failed = false) (hf' : failed' = true) : ∃ p ∈ ps, ∀ k, ∃ x ∈ p.jumps false k, x.2.IsReturn := by
  induction h with
  | nil => cases hf.symm.trans hf'
  | @cons _ failed₁ _ p _ _ _ hp _ ih =>
    cases failed₁ with
    | true => exact ⟨p, .head _, hp hf rfl⟩
    | false =>
      obtain ⟨q, hq, hreturns⟩ := ih rfl hf'
      exact ⟨q, .tail _ hq, hreturns⟩

theorem Breaks.rebuilt {failed failed' : Bool} {p p' : Part} {ps : List Part}
    (h : Rebuilt Breaks failed p p' failed') (howns : p.ownsJumps false = false) :
    Breaks failed p ps failed' := by
  intro hf hf' k
  obtain ⟨c, hc, hreturns⟩ := Breaks.exists_mem h.children hf hf'
  obtain ⟨x, hx, hreturn⟩ := hreturns (p.loopsBelow k)
  rw [Part.jumps_of_not_owns howns]
  exact ⟨x, List.mem_append_right _ (List.mem_flatMap.2 ⟨c, hc, hx⟩), hreturn⟩

theorem Breaks.kept {failed : Bool} {p : Part} {ps : List Part} : Breaks failed p ps failed :=
  fun hf hf' => nomatch hf.symm.trans hf'

theorem callbackBody_breaks : Sound (.failing Nat fun f : Fault => f.cause = .foreachReturn) callbackBody Breaks
    fun f e e' f' => Rebuilt Breaks f (.expr e) (.expr e') f' where
  below _ h := h
  array hvs := Logic.map _ (VisitsItem.mapM hvs _) fun _ _ h => .array h
  store hv := hv.inOrder _
  expr h := Logic.bind _ (h _) fun e₁ _ he₁ => by
    have hbreaks {ps} : Breaks _ _ ps _ := .rebuilt he₁ rfl
    cases e₁ with
    | assign p t v d => cases t <;> exact Logic.pure _ hbreaks
    | _ => exact Logic.pure _ hbreaks
  stmt {failed st act} h := by
    cases st with
    | continueLoop p | breakLoop p =>
      cases failed with
      | true => exact ⟨[], .kept⟩
      | false => exact fun r => by cases r <;> exact @Breaks.kept _ _ []
    | ret p v =>
      cases failed with
      | true => exact ⟨[], .kept⟩
      | false =>
        -- The only statement at which the pass fails.
        refine fun r => ⟨rfl, [], fun _ _ k => ⟨(k, .ret p v), ?_, p, v, rfl⟩⟩
        rw [Part.jumps_of_not_owns rfl]
        exact .head _
    | whileLoop | forLoop =>
      exact Logic.bind _ (Logic.failing_withReader (h _)) fun _ _ hst => Logic.pure _ (.rebuilt hst rfl)
    | _ => exact Logic.bind _ (h _) fun _ _ hst => Logic.pure _ (.rebuilt hst rfl)
  param h := Logic.weaken _ (h _) fun _ _ hp => .rebuilt hp rfl
  closure h := Logic.pure _ .kept
  clause h := Logic.weaken _ (h _) fun _ _ hc => .rebuilt hc rfl
  method h := Logic.weaken _ (h _) fun _ _ hm => .rebuilt hm rfl
  cls h := Logic.weaken _ (h _) fun _ _ hc => .rebuilt hc rfl
  iface h := Logic.weaken _ (h _) fun _ _ hi => .rebuilt hi rfl

theorem callbackBody_error {ss : List Stmt} {f : Fault} (h : (stmtsThrough callbackBody ss).run 0 = .error f) :
    f.cause = .foreachReturn ∧ Returns ss := by
  have hss := callbackBody_breaks.stmts ss false 0
  rw [h] at hss
  obtain ⟨hf, ss', hss'⟩ := hss
  obtain ⟨p, hp, hreturns⟩ := Breaks.exists_mem hss'.chunks rfl rfl
  obtain ⟨x, hx, hreturn⟩ := hreturns 0
  exact ⟨hf, x, List.mem_flatMap.2 ⟨p, hp, hx⟩, hreturn⟩

end Simplify

end ClassScript
