import ClassScript.Proofs.Registry.Order
import ClassScript.Proofs.Registry.Records
import Mathlib.Data.List.Induction
/-!
# What stands behind what

In the orders of emission a class stands behind its parent and an interface behind those it extends
(`classOrder_behind`, `interfaceOrder_behind`), and no declaration is left out.
-/

namespace ClassScript

/-! ## Lists -/

/-- Each entry of a list has a property that may speak of the entries before it. -/
def EachBehind {α : Type} (P : List α → α → Prop) (as : List α) : Prop :=
  ∀ before a behind, as = before ++ a :: behind → P before a

namespace EachBehind

variable {α β : Type} {P Q : List α → α → Prop} {a : α} {as bs : List α}

theorem nil : EachBehind P [] := by
  intro before a behind h
  simp at h

theorem cons : EachBehind P (a :: as) ↔ P [] a ∧ EachBehind (fun before => P (a :: before)) as := by
  constructor
  · intro h
    exact ⟨h [] a as rfl, fun before b behind hsplit => h (a :: before) b behind (by rw [hsplit]; rfl)⟩
  · rintro ⟨ha, h⟩ before b behind hsplit
    cases before with
    | nil =>
      cases hsplit
      exact ha
    | cons a' before =>
      cases hsplit
      exact h before b behind rfl

instance decide : {P : List α → α → Prop} → [∀ before a, Decidable (P before a)] → (as : List α) →
    Decidable (EachBehind P as)
  | _, _, [] => .isTrue nil
  | P, _, a :: as =>
    have : Decidable (EachBehind (fun before => P (a :: before)) as) := decide as
    decidable_of_iff _ cons.symm

theorem append : EachBehind P (as ++ bs) ↔ EachBehind P as ∧ EachBehind (fun before => P (as ++ before)) bs := by
  induction as generalizing P with
  | nil => simp [nil]
  | cons a as ih => simp only [List.cons_append, cons, ih, and_assoc]

theorem concat : EachBehind P (as ++ [a]) ↔ EachBehind P as ∧ P as a := by
  rw [append, cons, List.append_nil]
  simp [nil]

theorem congr (h : EachBehind (fun before a => P before a ↔ Q before a) as) : EachBehind P as ↔ EachBehind Q as :=
  forall₄_congr fun before a behind hsplit => h before a behind hsplit

theorem map {f : β → α} {bs : List β} :
    EachBehind P (bs.map f) ↔ EachBehind (fun before b => P (before.map f) (f b)) bs := by
  induction bs generalizing P with
  | nil => simp [nil]
  | cons b bs ih => simp only [List.map_cons, cons, ih, List.map_nil]

/-- A list that is put together of lists. -/
theorem flatMap {f : β → List α} {bs : List β} : EachBehind P (bs.flatMap f) ↔
    EachBehind (fun before b => EachBehind (fun inner => P (before.flatMap f ++ inner)) (f b)) bs := by
  induction bs generalizing P with
  | nil => simp [nil]
  | cons b bs ih =>
    simp only [List.flatMap_cons, append, cons, ih, List.flatMap_nil, List.nil_append, List.append_assoc]

/-- Where the entries before do not matter. -/
theorem forall_mem {R : α → Prop} (h : EachBehind (fun before a => P before a ↔ R a) as) :
    EachBehind P as ↔ ∀ a ∈ as, R a := by
  constructor
  · intro hP a ha
    obtain ⟨before, behind, hsplit⟩ := List.append_of_mem ha
    exact (h before a behind hsplit).1 (hP before a behind hsplit)
  · intro hR before a behind hsplit
    exact (h before a behind hsplit).2 (hR a (by simp [hsplit]))

/-- What each entry has if those before it have it, all have. -/
theorem forall_of_step {R : α → Prop} (h : EachBehind (fun before a => (∀ b ∈ before, R b) → R a) as) :
    ∀ a ∈ as, R a := by
  have hprefix (before behind : List α) (hsplit : as = before ++ behind) : ∀ b ∈ before, R b := by
    induction before using List.reverseRecOn generalizing behind with
    | nil => nofun
    | append_singleton before a ih =>
      rw [List.append_assoc] at hsplit
      have hbefore := ih _ hsplit
      exact List.forall_mem_append.2 ⟨hbefore, List.forall_mem_singleton.2 (h before a behind hsplit hbefore)⟩
  exact hprefix as [] (List.append_nil as).symm

end EachBehind

namespace Registry

variable {r : Registry}

/-! ## Classes -/

/-- The class that a class extends. -/
def parentOf (r : Registry) (n : String) : List String := ((r.class? n).bind (·.parent)).toList

theorem class?_of_mem (h : (r.classes.map (·.name)).Nodup) {c : ClassEntry} (hc : c ∈ r.classes) :
    r.class? c.name = some c := find?_of_nodup h hc

/-- The ancestry of a class can be put behind what is placed, and the class is then placed. -/
theorem ancestry_behind (hnodup : (r.classes.map (·.name)).Nodup) {placed below : List String} {c : ClassEntry}
    {hc : c ∈ r.classes} {ns : List String} (h : r.ancestry placed below c hc = .ok ns)
    (hplaced : EachBehind (fun before n => r.parentOf n ⊆ before) placed) :
    EachBehind (fun before n => r.parentOf n ⊆ before) (placed ++ ns) ∧ c.name ∈ placed ++ ns := by
  fun_induction r.ancestry placed below c hc generalizing ns with
  | case1 below c hc hmem =>
    cases h
    exact ⟨by simpa using hplaced, by simpa using hmem⟩
  | case2 => cases h
  | case3 below c hc _ _ hparent =>
    cases h
    refine ⟨EachBehind.concat.2 ⟨hplaced, ?_⟩, by simp⟩
    simp [parentOf, class?_of_mem hnodup hc, hparent]
  | case4 => cases h
  | case5 below c hc _ _ p hparent e he ih =>
    obtain ⟨older, holder, h⟩ := bind_eq_ok.1 h
    cases h
    obtain ⟨hbehind, hmem⟩ := ih holder
    rw [← List.append_assoc]
    refine ⟨EachBehind.concat.2 ⟨hbehind, ?_⟩, by simp⟩
    simpa [parentOf, class?_of_mem hnodup hc, hparent, class?_name he] using hmem

/-- All classes are in the order, each behind its parent. -/
theorem classOrder_behind (hnodup : (r.classes.map (·.name)).Nodup) {order : List String}
    (h : r.classOrder = .ok order) :
    EachBehind (fun before n => r.parentOf n ⊆ before) order ∧ ∀ c ∈ r.classes, c.name ∈ order := by
  refine (classOrder_run (P := fun done placed => EachBehind (fun before n => r.parentOf n ⊆ before) placed ∧
    ∀ c ∈ done, c.name ∈ placed) ⟨EachBehind.nil, nofun⟩ ?_ fun _ _ _ => trivial).1 order h
  rintro done placed c hc ns ⟨hplaced, hdone⟩ - hns
  obtain ⟨hbehind, hmem⟩ := ancestry_behind hnodup hns hplaced
  refine ⟨hbehind, List.forall_mem_append.2 ⟨fun a ha => ?_, List.forall_mem_singleton.2 hmem⟩⟩
  exact List.mem_append_left _ (hdone a ha)

/-! ## Interfaces -/

/-- The interfaces that an interface extends. -/
def parentsOf (r : Registry) (n : String) : List String := ((r.interface? n).map (·.parents)).getD []

theorem placeInterfaces_behind {below placed names out : List String}
    (h : r.placeInterfaces below placed names = .ok out)
    (hplaced : EachBehind (fun before n => r.parentsOf n ⊆ before) placed) :
    EachBehind (fun before n => r.parentsOf n ⊆ before) out ∧ placed ⊆ out ∧ names ⊆ out := by
  fun_induction r.placeInterfaces below placed names generalizing out with
  | case1 =>
    cases h
    exact ⟨hplaced, List.Subset.refl _, List.nil_subset _⟩
  | case2 _ _ n rest hn ih =>
    obtain ⟨hbehind, hsubset, hrest⟩ := ih h hplaced
    exact ⟨hbehind, hsubset, List.cons_subset.2 ⟨hsubset (by simpa using hn), hrest⟩⟩
  | case3 => cases h
  | case4 => cases h
  | case5 below placed n rest _ _ e he ih₁ ih₂ =>
    obtain ⟨placed', hparents, h⟩ := bind_eq_ok.1 h
    obtain ⟨hbehind, hsubset, hall⟩ := ih₁ hparents hplaced
    have hn : r.parentsOf n ⊆ placed' := by simpa [parentsOf, he] using hall
    obtain ⟨hout, hkept, hrest⟩ := ih₂ placed' h (EachBehind.concat.2 ⟨hbehind, hn⟩)
    refine ⟨hout, fun m hm => hkept (List.mem_append_left _ (hsubset hm)), ?_⟩
    exact List.cons_subset.2 ⟨hkept (by simp), hrest⟩

/-- All interfaces are in the order, each behind those it extends. -/
theorem interfaceOrder_behind {order : List String} (h : r.interfaceOrder = .ok order) :
    EachBehind (fun before n => r.parentsOf n ⊆ before) order ∧ ∀ i ∈ r.interfaces, i.name ∈ order := by
  obtain ⟨hbehind, -, hall⟩ := placeInterfaces_behind (mapError_eq_ok.1 h) EachBehind.nil
  exact ⟨hbehind, fun i hi => hall (List.mem_map_of_mem hi)⟩

end Registry

end ClassScript
