import ClassScript.Emit.Emission
import ClassScript.Proofs.Tree.Through
/-!
# What emissions give

`Keeps inv act Q` says that the emission keeps an invariant of the function that it stands in, and that whatever
it gives has the property. An emission that fails gives nothing. `Yields` is about any place, `AtLoad` about the
places outside of functions.
-/

namespace ClassScript.Emit

open Script

/-- The emission keeps what `inv` says of the function around it, and what it gives has the property. -/
def Keeps {α : Type} (inv : Option Frame → Prop) (act : Emission α) (Q : α → Prop) : Prop :=
  ∀ frame a frame', inv frame → act.run frame = .ok (a, frame') → inv frame' ∧ Q a

/-- Whatever the emission gives has the property. -/
abbrev Yields {α : Type} (act : Emission α) (Q : α → Prop) : Prop := Keeps (fun _ => True) act Q

/-- Outside of functions, the emission stays there, and what it gives has the property. -/
abbrev AtLoad {α : Type} (act : Emission α) (Q : α → Prop) : Prop := Keeps (· = none) act Q

/-- Both of two emissions have to succeed. -/
theorem run_bind_eq_ok {α β : Type} {act : Emission α} {f : α → Emission β}
    {frame frame' : Option Frame} {b : β} : (act >>= f).run frame = .ok (b, frame') ↔
      ∃ a inner, act.run frame = .ok (a, inner) ∧ (f a).run inner = .ok (b, frame') := by
  rw [StateT.run_bind, bind_eq_ok, Prod.exists]

section Run

variable {α β : Type} {frame frame' : Option Frame}

theorem run_pure_eq_ok {a b : α} :
    (pure a : Emission α).run frame = .ok (b, frame') ↔ a = b ∧ frame = frame' := by
  show Except.ok (a, frame) = Except.ok (b, frame') ↔ _
  simp

/-- Nodes are made without a look at the function around them. -/
theorem run_built_eq_ok {b : Built α} {a : α} :
    (liftM b : Emission α).run frame = .ok (a, frame') ↔ b = .ok a ∧ frame = frame' := by
  cases b with
  | error e => exact ⟨nofun, nofun⟩
  | ok x => exact run_pure_eq_ok.trans (by simp)

theorem run_built_bind {b : Built α} {rest : α → Emission β} {c : β} :
    ((liftM b : Emission α) >>= rest).run frame = .ok (c, frame') ↔
      ∃ a, b = .ok a ∧ (rest a).run frame = .ok (c, frame') := by
  simp only [run_bind_eq_ok, run_built_eq_ok, and_assoc, exists_and_left, exists_eq_left']

end Run

namespace Keeps

variable {α β : Type} {inv : Option Frame → Prop} {act : Emission α} {P Q : α → Prop} {R : β → Prop}

theorem imp (h : Keeps inv act P) (hQ : ∀ a, P a → Q a) : Keeps inv act Q := by
  intro frame a frame' hframe ha
  exact (h frame a frame' hframe ha).imp_right (hQ a)

theorem pure {a : α} (h : Q a) : Keeps inv (Pure.pure a) Q := by
  rintro frame _ _ hframe ⟨⟩
  exact ⟨hframe, h⟩

theorem bind {f : α → Emission β} (h : Keeps inv act P) (hf : ∀ a, P a → Keeps inv (f a) R) :
    Keeps inv (act >>= f) R := by
  intro frame b frame' hframe hb
  obtain ⟨a, inner, ha, hb⟩ := run_bind_eq_ok.1 hb
  obtain ⟨hinner, hP⟩ := h frame a inner hframe ha
  exact hf a hP inner b frame' hinner hb

theorem result {r : Result α} (h : ∀ a, r = .ok a → Q a) : Keeps inv (liftM r) Q := by
  intro frame a frame' hframe ha
  cases r with
  | error d => cases ha
  | ok x =>
    cases ha
    exact ⟨hframe, h a rfl⟩

theorem built {b : Built α} (h : ∀ a, b = .ok a → Q a) : Keeps inv (liftM b) Q :=
  result (r := liftM b) fun a ha => h a (mapError_eq_ok.1 ha)

theorem fail (fault : Fault) : Keeps inv (fail fault) Q := nofun

theorem failAt (fault : Fault) (pos : Position) : Keeps inv (failAt fault pos) Q := nofun

/-- A failure is the end of it. -/
theorem stop (fault : Fault) (f : α → Emission β) : Keeps inv (Emit.fail fault >>= f) R :=
  (fail (Q := fun _ => False) fault).bind nofun

theorem get : Keeps inv get inv := by
  rintro frame _ _ hframe ⟨⟩
  exact ⟨hframe, hframe⟩

theorem located (h : Keeps inv act Q) (pos : Position) : Keeps inv (located pos act) Q :=
  fun frame a frame' hframe ha => h frame a frame' hframe (mapError_eq_ok.1 ha)

theorem ite {c : Prop} [Decidable c] {act' : Emission α} (h : Keeps inv act Q) (h' : Keeps inv act' Q) :
    Keeps inv (if c then act else act') Q := by
  split
  · exact h
  · exact h'

/-- Each item gives what it has to. -/
theorem mapM {f : α → Emission β} {S : α → β → Prop} {l : List α} (h : ∀ a ∈ l, Keeps inv (f a) (S a)) :
    Keeps inv (l.mapM f) (List.Forall₂ S l) := by
  induction l with
  | nil =>
    rw [List.mapM_nil]
    exact pure .nil
  | cons a l ih =>
    rw [List.forall_mem_cons] at h
    rw [List.mapM_cons]
    exact h.1.bind fun b hb => (ih h.2).bind fun bs hbs => pure (.cons hb hbs)

theorem forall_mapM {f : α → Emission β} {l : List α} (h : ∀ a ∈ l, Keeps inv (f a) R) :
    Keeps inv (l.mapM f) fun bs => ∀ b ∈ bs, R b := by
  refine (mapM (S := fun _ => R) h).imp fun bs hbs => ?_
  clear h
  induction hbs with
  | nil => exact nofun
  | cons hb _ ih => exact List.forall_mem_cons.2 ⟨hb, ih⟩

/-- What an emission gives from outside of functions. -/
theorem run' (h : Keeps inv act Q) (hnone : inv none) {a : α} (ha : act.run' none = .ok a) :
    ∃ frame, act.run none = .ok (a, frame) ∧ inv frame ∧ Q a := by
  change Prod.fst <$> act.run none = .ok a at ha
  cases hrun : act.run none with
  | error d =>
    rw [hrun] at ha
    cases ha
  | ok x =>
    rw [hrun] at ha
    cases ha
    exact ⟨x.2, rfl, h none x.1 x.2 hnone hrun⟩

/-- Outside of functions, the emission gives what it says it gives. -/
theorem exact (h : Keeps (· = none) act Q) : AtLoad act fun a => act.run none = .ok (a, none) := by
  rintro _ a frame rfl ha
  obtain ⟨rfl, -⟩ := h none a frame rfl ha
  exact ⟨rfl, ha⟩

theorem run_none (h : Keeps (· = none) act Q) {a : α} (ha : act.run' none = .ok a) :
    act.run none = .ok (a, none) ∧ Q a := by
  obtain ⟨_, hrun, rfl, hQ⟩ := h.run' rfl ha
  exact ⟨hrun, hQ⟩

end Keeps

/-- Nothing is said of what is given. -/
theorem Yields.any {α : Type} (act : Emission α) : Yields act fun _ => True :=
  fun _ _ _ _ _ => ⟨trivial, trivial⟩

end ClassScript.Emit
