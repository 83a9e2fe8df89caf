import ClassScript.Text.Word
/-!
# Words and segments

Words are what names are made of. A text is its segments with separators between them, and a list of
pieces without separators is what its joined text is divided into again.
-/

namespace ClassScript

/-! ## Words -/

/-- Whether a text is a word: a letter or an underscore, and then letters, digits and underscores. -/
def isWord (s : String) : Bool :=
  match s.toList with
  | [] => false
  | c :: cs => isWordStart c && cs.all isWordChar

theorem isWordChar_of_isWordStart {c : Char} (h : isWordStart c = true) : isWordChar c = true := by
  simp only [isWordStart, isWordChar, Char.isAlphanum, Bool.or_eq_true] at h ⊢
  exact h.imp_left .inl

theorem isWordChar_of_isWord {s : String} (h : isWord s = true) {c : Char} (hc : c ∈ s.toList) :
    isWordChar c = true := by
  unfold isWord at h
  split at h
  · cases h
  · next d ds hs =>
    obtain ⟨hd, hds⟩ := Bool.and_eq_true_iff.1 h
    rw [hs] at hc
    rcases List.mem_cons.1 hc with rfl | hc
    · exact isWordChar_of_isWordStart hd
    · exact List.all_eq_true.1 hds c hc

/-- Other characters stand in no word. -/
theorem not_mem_of_isWord {s : String} (h : isWord s = true) {c : Char} (hc : isWordChar c = false) :
    c ∉ s.toList := fun hmem => by simp [isWordChar_of_isWord h hmem] at hc

theorem ne_empty_of_isWord {s : String} (h : isWord s = true) : s ≠ "" := by
  rintro rfl
  cases h

theorem head?_ne_of_isWord {w : String} (hw : isWord w = true) {c : Char} (hc : isWordChar c = false)
    (rest : String) : (w ++ rest).toList.head? ≠ some c := by
  obtain ⟨d, ds, hds⟩ := List.exists_cons_of_ne_nil fun h => ne_empty_of_isWord hw (String.toList_eq_nil_iff.1 h)
  have hd : d ∈ w.toList := hds ▸ List.mem_cons_self
  rw [String.toList_append, hds, List.cons_append, List.head?_cons]
  rintro ⟨⟩
  exact not_mem_of_isWord hw hc hd

theorem getLast?_ne_of_isWord {w : String} (hw : isWord w = true) {c : Char} (hc : isWordChar c = false)
    (front : String) : (front ++ w).toList.getLast? ≠ some c := by
  have hlast : w.toList.getLast? ≠ some c := fun h => not_mem_of_isWord hw hc (List.mem_of_getLast? h)
  simp [hlast, ne_empty_of_isWord hw]

/-- A text of words starts with a word, whatever is between them. -/
theorem intercalate_head?_ne (sep : String) {ws : List String} (hne : ws ≠ [])
    (hws : ∀ w ∈ ws, isWord w = true) {c : Char} (hc : isWordChar c = false) (rest : String) :
    (sep.intercalate ws ++ rest).toList.head? ≠ some c := by
  match ws with
  | [] => exact absurd rfl hne
  | [w] =>
    rw [String.intercalate_singleton]
    exact head?_ne_of_isWord (hws w List.mem_cons_self) hc rest
  | w :: next :: more =>
    rw [String.intercalate_cons_cons, String.append_assoc, String.append_assoc]
    exact head?_ne_of_isWord (hws w List.mem_cons_self) hc _

theorem intercalate_getLast?_ne (sep : String) {ws : List String} (hne : ws ≠ [])
    (hws : ∀ w ∈ ws, isWord w = true) {c : Char} (hc : isWordChar c = false) :
    (sep.intercalate ws).toList.getLast? ≠ some c := by
  obtain ⟨front, last, rfl⟩ : ∃ front last, ws = front ++ [last] :=
    ⟨_, _, (List.dropLast_concat_getLast hne).symm⟩
  have hlast : isWord last = true := hws last (by simp)
  by_cases hfront : front = []
  · simpa [hfront] using getLast?_ne_of_isWord hlast hc ""
  · rw [String.intercalate_append_of_ne_nil hfront (List.cons_ne_nil _ _), String.intercalate_singleton]
    exact getLast?_ne_of_isWord hlast hc _

theorem intercalate_ne_empty (sep : String) {ws : List String} (hne : ws ≠ [])
    (hws : ∀ w ∈ ws, isWord w = true) : sep.intercalate ws ≠ "" := by
  match ws with
  | [] => exact absurd rfl hne
  | [w] =>
    rw [String.intercalate_singleton]
    exact ne_empty_of_isWord (hws w List.mem_cons_self)
  | w :: next :: more =>
    rw [String.intercalate_cons_cons]
    simp [ne_empty_of_isWord (hws w List.mem_cons_self)]

/-! ## Segments -/

variable {sep : Char}

@[simp] theorem segments_nil (sep : Char) : segments sep [] = [[]] := rfl

theorem segments_ne_nil (sep : Char) (cs : List Char) : segments sep cs ≠ [] := by
  cases cs with
  | nil => simp
  | cons c cs =>
    rw [segments]
    split
    · simp
    · split <;> simp

/-- A character is a separator or goes to the first segment of the rest. -/
theorem segments_cons (sep c : Char) (cs : List Char) : segments sep (c :: cs) =
    if c = sep then [] :: segments sep cs else (segments sep cs).modifyHead (c :: ·) := by
  obtain ⟨piece, rest, hcs⟩ := List.exists_cons_of_ne_nil (segments_ne_nil sep cs)
  rw [segments, hcs]
  rfl

theorem segments_of_not_mem {cs : List Char} (h : sep ∉ cs) : segments sep cs = [cs] := by
  induction cs with
  | nil => rfl
  | cons c cs ih =>
    rw [List.mem_cons, not_or] at h
    rw [segments_cons, if_neg (Ne.symm h.1), ih h.2, List.modifyHead_cons]

/-- No segment has a separator. -/
theorem not_mem_of_mem_segments {cs piece : List Char} (h : piece ∈ segments sep cs) : sep ∉ piece := by
  induction cs generalizing piece with
  | nil => simp_all
  | cons c cs ih =>
    rw [segments_cons] at h
    split at h
    · rcases List.mem_cons.1 h with rfl | h
      · exact List.not_mem_nil
      · exact ih h
    · next hc =>
      obtain ⟨first, rest, hcs⟩ := List.exists_cons_of_ne_nil (segments_ne_nil sep cs)
      rw [hcs] at h ih
      rcases List.mem_cons.1 h with rfl | h
      · rw [List.mem_cons, not_or]
        exact ⟨Ne.symm hc, ih (.head _)⟩
      · exact ih (.tail _ h)

/-- A separator divides a text, whatever is on its sides. -/
theorem segments_append_cons (cs ds : List Char) :
    segments sep (cs ++ sep :: ds) = segments sep cs ++ segments sep ds := by
  induction cs with
  | nil => simp [segments_cons]
  | cons c cs ih =>
    rw [List.cons_append, segments_cons, segments_cons, ih]
    split
    · rfl
    · obtain ⟨piece, rest, hcs⟩ := List.exists_cons_of_ne_nil (segments_ne_nil sep cs)
      rw [hcs]
      rfl

/-- A text is its segments with separators between them. -/
theorem intercalate_segments (sep : Char) (cs : List Char) :
    [sep].intercalate (segments sep cs) = cs := by
  induction cs with
  | nil => rfl
  | cons c cs ih =>
    obtain ⟨piece, rest, hcs⟩ := List.exists_cons_of_ne_nil (segments_ne_nil sep cs)
    rw [hcs] at ih
    rw [segments_cons, hcs]
    split
    · next hc => rw [List.intercalate_cons_cons, ih, hc]; rfl
    · cases rest with
      | nil => rw [← ih]; rfl
      | cons next rest => rw [← ih, List.modifyHead_cons, List.intercalate_cons_cons, List.intercalate_cons_cons]; rfl

theorem intercalate_segments_ofList {s : String} (hs : s.toList = [sep]) (cs : List Char) :
    s.intercalate ((segments sep cs).map String.ofList) = String.ofList cs := by
  rw [← String.toList_inj, String.toList_intercalate, hs, List.map_map]
  simpa [Function.comp_def] using intercalate_segments sep cs

/-- Pieces without separators are found again. -/
theorem segments_intercalate {pieces : List (List Char)} (hne : pieces ≠ [])
    (h : ∀ piece ∈ pieces, sep ∉ piece) : segments sep ([sep].intercalate pieces) = pieces := by
  induction pieces with
  | nil => exact absurd rfl hne
  | cons piece rest ih =>
    obtain ⟨hpiece, hrest⟩ := List.forall_mem_cons.1 h
    cases rest with
    | nil => rw [List.intercalate_singleton, segments_of_not_mem hpiece]
    | cons next rest =>
      rw [List.intercalate_cons_cons, List.append_assoc, List.singleton_append, segments_append_cons,
        segments_of_not_mem hpiece, ih (List.cons_ne_nil _ _) hrest]
      rfl

end ClassScript
