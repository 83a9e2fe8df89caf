/-!
# Bounded search

A search through a finite list ends because every step sees an entry that was not seen before.
-/

namespace ClassScript

variable {α κ : Type} [BEq κ]

/-- How many entries have a key that is not among those seen. -/
def unseen (f : α → κ) (entries : List α) (seen : List κ) : Nat :=
  entries.countP fun e => !seen.contains (f e)

theorem unseen_cons_le (f : α → κ) (entries : List α) (seen : List κ) (n : κ) :
    unseen f entries (n :: seen) ≤ unseen f entries seen :=
  List.countP_mono_left fun e _ h => by
    simp only [List.contains_cons, Bool.not_or, Bool.and_eq_true] at h
    exact h.2

/-- The more is seen, the less is left. -/
theorem unseen_le_of_subset [LawfulBEq κ] (f : α → κ) (entries : List α) {seen seen' : List κ} (h : seen ⊆ seen') :
    unseen f entries seen' ≤ unseen f entries seen := by
  refine List.countP_mono_left fun e _ he => ?_
  simp only [List.contains_eq_mem, Bool.not_eq_true', decide_eq_false_iff_not] at he ⊢
  exact fun hmem => he (h hmem)

theorem unseen_cons_lt [LawfulBEq κ] {f : α → κ} {entries : List α} {seen : List κ} {e : α} (he : e ∈ entries)
    (hs : seen.contains (f e) = false) :
    unseen f entries (f e :: seen) < unseen f entries seen := by
  induction entries with
  | nil => cases he
  | cons x rest ih =>
    have step : ∀ ys : List κ, unseen f (x :: rest) ys
        = unseen f rest ys + if ys.contains (f x) then 0 else 1 := by
      intro ys
      unfold unseen
      rw [List.countP_cons]
      cases ys.contains (f x) <;> simp
    rw [step, step]
    rcases List.mem_cons.1 he with rfl | he
    · have := unseen_cons_le f rest seen (f e)
      simp only [List.contains_cons, beq_self_eq_true, Bool.true_or, if_true, hs]
      simp only [Bool.false_eq_true, if_false]
      omega
    · have := ih he
      by_cases hx : seen.contains (f x) <;> simp only [List.contains_cons, hx, Bool.or_true, if_true]
        <;> (try split) <;> simp <;> omega

/-- A step that sees a new entry may put as many keys in front of the rest as an entry names. -/
theorem search_lt {left left' width added : Nat} (rest : Nat) (hleft : left' < left) (hadded : added ≤ width) :
    left' * width + (added + rest) < left * width + (rest + 1) := by
  have hmul := Nat.mul_le_mul_right width hleft
  rw [Nat.succ_mul] at hmul
  omega

theorem mem_of_lookup [LawfulBEq κ] {xs : List (κ × α)} {k : κ} {a : α}
    (h : xs.lookup k = some a) : (k, a) ∈ xs := by
  obtain ⟨before, behind, rfl, -⟩ := List.lookup_eq_some_iff.1 h
  simp

end ClassScript
