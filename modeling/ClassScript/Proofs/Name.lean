import ClassScript.Emit.Identifier
import ClassScript.Proofs.Text.Word
import ClassScript.Simplify.Names
/-!
# Names and their spellings

A name is printed by joining its segments, and registry keys, dependencies and emitted paths are joined names that are
divided again. The names that occur in a program, as they are read or as they are resolved, are proper: no segment
is empty or has a separator (`Occurring.proper`). A proper name is read back from its spelling (`Proper.parse_display`),
and its segments from the joined text (`Proper.partsOf_joined`).
-/

namespace ClassScript.Name

/-- No segment is empty or has a separator, and unless the name is fully qualified, its kind tells whether it has
several segments. -/
structure Proper (n : Name) : Prop where
  ne_empty : ∀ part ∈ n.parts, part ≠ ""
  not_mem : ∀ part ∈ n.parts, separator ∉ part.toList
  kind : n.kind = .fullyQualified ∨ n.kind = if n.parts.length > 1 then .qualified else .unqualified

/-- The names of a program: those that are read, and what names are resolved to. -/
inductive Occurring : Name → Prop
  | parse (raw : String) : Occurring (.parse raw)
  | global (raw : String) : Occurring (.global raw)
  | resolveClass (s : Scope) {n : Name} : Occurring n → Occurring (s.resolveClass n)
  | resolveFunction (s : Scope) {n : Name} : Occurring n → Occurring (s.resolveFunction n)
  | resolveTypeName (s : Scope) {n : Name} : Occurring n → Occurring (s.resolveTypeName n)

/-! ## Proper names -/

theorem proper_partsOf (raw : String) {kind : NameKind}
    (hkind : kind = .fullyQualified ∨ kind = if (partsOf raw).length > 1 then .qualified else .unqualified) :
    Proper ⟨partsOf raw, kind⟩ := by
  have hpart (part : String) (h : part ∈ partsOf raw) : part ≠ "" ∧ separator ∉ part.toList := by
    obtain ⟨piece, hpiece, rfl⟩ := List.mem_map.1 h
    obtain ⟨hpiece, hne⟩ := List.mem_filter.1 hpiece
    rw [String.toList_ofList]
    refine ⟨fun hempty => ?_, not_mem_of_mem_segments hpiece⟩
    simp_all
  exact ⟨fun part h => (hpart part h).1, fun part h => (hpart part h).2, hkind⟩

theorem proper_global (raw : String) : (global raw).Proper := proper_partsOf raw (.inl rfl)

theorem proper_parse (raw : String) : (parse raw).Proper := by
  unfold parse
  dsimp only
  split
  · exact proper_global raw
  · split
    · next hmany => exact proper_partsOf raw (.inr (if_pos hmany).symm)
    · next hone => exact proper_partsOf raw (.inr (if_neg hone).symm)

namespace Proper

variable {n n' : Name}

theorem resolveClass (h : n.Proper) (s : Scope) : (s.resolveClass n).Proper := by
  unfold Scope.resolveClass
  split
  · exact h
  · split <;> exact proper_global _

theorem resolveFunction (h : n.Proper) (s : Scope) : (s.resolveFunction n).Proper := by
  unfold Scope.resolveFunction
  split
  · exact proper_global _
  · exact h.resolveClass s

theorem resolveTypeName (h : n.Proper) (s : Scope) : (s.resolveTypeName n).Proper := by
  unfold Scope.resolveTypeName
  split
  · exact h
  · split
    · split
      · exact proper_global _
      · exact h.resolveClass s
    · exact h.resolveClass s

end Proper

theorem Occurring.proper {n : Name} (h : n.Occurring) : n.Proper := by
  induction h with
  | parse raw => exact proper_parse raw
  | global raw => exact proper_global raw
  | resolveClass s _ ih => exact ih.resolveClass s
  | resolveFunction s _ ih => exact ih.resolveFunction s
  | resolveTypeName s _ ih => exact ih.resolveTypeName s

/-! ## Joining and dividing -/

theorem toList_joined (n : Name) : n.joined.toList = [separator].intercalate (n.parts.map String.toList) :=
  String.toList_intercalate

/-- A leading separator adds an empty segment, which does not count. -/
theorem partsOf_separator (raw : String) : partsOf ("\\" ++ raw) = partsOf raw := by
  have hlead : segments separator ("\\" ++ raw).toList = [] :: segments separator raw.toList := by
    rw [String.toList_append]
    exact segments_append_cons [] raw.toList
  rw [partsOf, hlead]
  rfl

namespace Proper

variable {n n' : Name}

theorem partsOf_joined (h : n.Proper) : partsOf n.joined = n.parts := by
  by_cases hparts : n.parts = []
  · rw [joined, hparts]
    rfl
  have hsegments : segments separator n.joined.toList = n.parts.map String.toList := by
    rw [toList_joined]
    exact segments_intercalate (by simpa using hparts) (List.forall_mem_map.2 h.not_mem)
  have hkept : ∀ cs ∈ n.parts.map String.toList, (!cs.isEmpty) = true :=
    List.forall_mem_map.2 fun part hpart => by simpa using h.ne_empty part hpart
  rw [partsOf, hsegments, List.filter_eq_self.2 hkept, List.map_map]
  simp [Function.comp_def]

/-- The first character of a joined name is one of its first segment. -/
theorem head?_joined_ne (h : n.Proper) : n.joined.toList.head? ≠ some separator := by
  intro hhead
  rw [toList_joined] at hhead
  cases hparts : n.parts with
  | nil => simp [hparts] at hhead
  | cons first rest =>
    have hfirst : first ∈ n.parts := hparts ▸ List.mem_cons_self
    obtain ⟨c, cs, hcs⟩ := List.exists_cons_of_ne_nil fun hnil =>
      h.ne_empty first hfirst (String.toList_eq_nil_iff.1 hnil)
    have hc : c ≠ separator := fun heq => h.not_mem first hfirst (hcs ▸ heq ▸ List.mem_cons_self)
    rw [hparts] at hhead
    cases rest <;> simp [hcs, hc] at hhead

/-- A proper name is read back from its spelling. -/
theorem parse_display (h : n.Proper) : parse n.display = n := by
  obtain ⟨parts, kind⟩ := n
  rcases h.kind with rfl | hkind
  · have hparts := (partsOf_separator _).trans h.partsOf_joined
    have hhead : ("\\" ++ joined ⟨parts, .fullyQualified⟩).toList.head? = some separator := by
      rw [String.toList_append]
      rfl
    simp only [display, parse, if_pos hhead, hparts]
  · replace hkind : kind = if parts.length > 1 then .qualified else .unqualified := hkind
    have hdisplay : display ⟨parts, kind⟩ = joined ⟨parts, kind⟩ := by
      rw [hkind]
      split <;> rfl
    rw [hdisplay, parse, if_neg h.head?_joined_ne, h.partsOf_joined, hkind]
    split <;> rfl

theorem parts_eq_of_joined (h : n.Proper) (h' : n'.Proper) (hjoined : n.joined = n'.joined) : n.parts = n'.parts := by
  rw [← h.partsOf_joined, hjoined, h'.partsOf_joined]

/-- The emitted path of a class goes through the segments of its name. -/
theorem classPath_joined (h : n.Proper) : Emit.classPath n.joined = Script.path (Emit.rootName :: n.parts) :=
  congrArg (fun parts => Script.path (Emit.rootName :: parts)) h.partsOf_joined

end Proper

/-! ## Printing and reading again -/

/-- Printing a name and reading it again gives the name, and so it is with the fully qualified name of the same
segments. In all names of a program no segment is empty or has a separator, so the joined text of a name tells its
segments. -/
theorem printing_reads_back (raw : String) :
    parse (parse raw).display = parse raw ∧
    (global (parse raw).joined).parts = (parse raw).parts ∧
    parse (global (parse raw).joined).display = global (parse raw).joined ∧
    (∀ n, Occurring n → (∀ part ∈ n.parts, part ≠ "" ∧ separator ∉ part.toList) ∧ partsOf n.joined = n.parts ∧
      Emit.classPath n.joined = Script.path (Emit.rootName :: n.parts)) ∧
    ∀ n n', Occurring n → Occurring n' → n.joined = n'.joined → n.parts = n'.parts := by
  refine ⟨(proper_parse raw).parse_display, (proper_parse raw).partsOf_joined, (proper_global _).parse_display, ?_, ?_⟩
  · intro n hn
    have hproper := hn.proper
    exact ⟨fun part h => ⟨hproper.ne_empty part h, hproper.not_mem part h⟩, hproper.partsOf_joined,
      hproper.classPath_joined⟩
  · intro n n' hn hn' hjoined
    exact hn.proper.parts_eq_of_joined hn'.proper hjoined

/-- A class of a namespace and its fully qualified name, written with needless separators, have the same segments. -/
theorem resolved_reads_back :
    let scope : Scope := { namespaceName := some (parse "\\App") }
    (scope.resolveClass (parse "Model\\\\User\\")).joined = (parse "\\App\\Model\\User").joined ∧
    (scope.resolveClass (parse "Model\\\\User\\")).parts = (parse "\\App\\Model\\User").parts := by
  have hjoined : (Scope.resolveClass { namespaceName := some (parse "\\App") } (parse "Model\\\\User\\")).joined =
      (parse "\\App\\Model\\User").joined := by decide +kernel
  exact ⟨hjoined, (printing_reads_back "").2.2.2.2 _ _ (.resolveClass _ (.parse _)) (.parse _) hjoined⟩

end ClassScript.Name
