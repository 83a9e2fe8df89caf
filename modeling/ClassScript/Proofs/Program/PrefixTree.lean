import ClassScript.Proofs.Program.Namespaces
import ClassScript.Proofs.Text.Word
import Mathlib.Data.List.Sort
/-!
# The prefix tree of declarations

The tree of a list of names is the prefix tree of the namespaces that they lie in (`declarations_prefix_tree`): it has
a path if and only if the path leads to the namespace of a name. Trees are ordered, and an ordered tree is determined
by its paths (`Ordered.eq_of_has`), so it does not matter in which order the names come, nor how often.
-/

namespace ClassScript.NamespaceTree

/-! ## Trees with the same paths -/

theorem mem_iff_lookup {cs : List (String × NamespaceTree)} (h : cs.Pairwise (·.1 < ·.1)) {s : String}
    {child : NamespaceTree} : (s, child) ∈ cs ↔ cs.lookup s = some child := by
  refine ⟨fun hmem => ?_, mem_of_lookup⟩
  induction cs with
  | nil => cases hmem
  | cons x cs ih =>
    obtain ⟨hx, hcs⟩ := List.pairwise_cons.1 h
    obtain ⟨k, t⟩ := x
    rw [Dictionary.lookup_cons_ite]
    rcases List.mem_cons.1 hmem with heq | hmem
    · cases heq
      rw [if_pos rfl]
    · have hne : s ≠ k := fun heq => String.lt_irrefl k (heq ▸ hx (s, child) hmem)
      rw [if_neg hne, ih hcs hmem]

/-- Children in order are determined by what is found at each segment. -/
theorem eq_of_lookup {cs ds : List (String × NamespaceTree)} (hcs : cs.Pairwise (·.1 < ·.1))
    (hds : ds.Pairwise (·.1 < ·.1)) (h : ∀ s, cs.lookup s = ds.lookup s) : cs = ds := by
  have : Std.Irrefl fun c d : String × NamespaceTree => c.1 < d.1 := ⟨fun c => String.lt_irrefl c.1⟩
  have : Std.Antisymm fun c d : String × NamespaceTree => c.1 < d.1 :=
    ⟨fun c d hcd hdc => absurd (String.lt_trans hcd hdc) (String.lt_irrefl c.1)⟩
  refine hcs.eq_of_mem_iff hds fun c => ?_
  rw [mem_iff_lookup hcs, mem_iff_lookup hds, h]

theorem has_cons {t : NamespaceTree} {s : String} {path : List String} :
    t.Has (s :: path) ↔ ∃ child, t.children.lookup s = some child ∧ child.Has path := .rfl

/-- An ordered tree is determined by its paths. -/
theorem Ordered.eq_of_has {t u : NamespaceTree} (ht : t.Ordered) (hu : u.Ordered)
    (h : ∀ path, t.Has path ↔ u.Has path) : t = u := by
  induction ht generalizing u with
  | @node cs hcs _ ih =>
    obtain ⟨ds⟩ := u
    have hds := hu.strict
    refine congrArg NamespaceTree.node (eq_of_lookup hcs hds fun s => ?_)
    have hpaths (path : List String) := h (s :: path)
    simp only [has_cons, children_node] at hpaths
    cases hc : cs.lookup s with
    | none =>
      -- a child of the other tree alone would be a path of the other tree alone
      cases hd : ds.lookup s with
      | none => rfl
      | some d => simpa [hc, hd, Has] using hpaths []
    | some c =>
      cases hd : ds.lookup s with
      | none => simpa [hc, hd, Has] using hpaths []
      | some d =>
        simp only [hc, hd, Option.some.injEq, exists_eq_left'] at hpaths
        exact congrArg some (ih (s, c) (mem_of_lookup hc) (hu.child (s, d) (mem_of_lookup hd)) hpaths)

theorem ordered_ofDeclarations (names : List String) : (ofDeclarations names).Ordered := by
  have hfold (t : NamespaceTree) (h : t.Ordered) : (names.foldl insertDeclaration t).Ordered := by
    induction names generalizing t with
    | nil => exact h
    | cons n names ih => exact ih _ (ordered_insertPath _ h)
  exact hfold empty ordered_empty

/-! ## Where a name lies -/

/-- The name with the separators in front dropped. -/
def bare (name : String) : List Char := name.toList.dropWhile (· == '\\')

/-- The name stands for `own` in a namespace: the last separator parts the two, and empty segments of the namespace
do not count. What stands behind a separator at the end is empty. A name without separators, apart from those in front,
lies in no namespace. -/
inductive LiesIn (name : String) : List String → String → Prop
  | inside {space own : List Char} : bare name = space ++ '\\' :: own → '\\' ∉ own →
    LiesIn name (pathOf (segments '\\' space)) (String.ofList own)
  | global : '\\' ∉ bare name → LiesIn name [] (String.ofList (bare name))

theorem pathOf_dropLast_cons (cs : List Char) :
    pathOf (segments '\\' ('\\' :: cs)).dropLast = pathOf (segments '\\' cs).dropLast := by
  rw [segments, if_pos rfl, List.dropLast_cons_of_ne_nil (segments_ne_nil _ _)]
  rfl

/-- Separators in front do not matter. -/
theorem around_eq (name : String) : around name = pathOf (segments '\\' (bare name)).dropLast := by
  unfold around bare
  induction name.toList with
  | nil => rfl
  | cons c cs ih =>
    by_cases hc : c = '\\'
    · rw [hc, pathOf_dropLast_cons, ih, List.dropWhile_cons_of_pos (by simp)]
    · rw [List.dropWhile_cons_of_neg (by simpa using hc)]

variable {name own : String} {space : List String}

theorem LiesIn.around_eq (h : LiesIn name space own) : around name = space := by
  rw [NamespaceTree.around_eq]
  cases h with
  | inside hbare hown =>
    rw [hbare, segments_append_cons, segments_of_not_mem hown, List.dropLast_concat]
  | global hbare =>
    rw [segments_of_not_mem hbare]
    rfl

theorem exists_liesIn (name : String) : ∃ own, LiesIn name (around name) own := by
  by_cases hbare : '\\' ∈ bare name
  · obtain ⟨own, space, heq, hown⟩ := List.eq_append_cons_of_mem (List.mem_reverse.2 hbare)
    have hsplit : bare name = space.reverse ++ '\\' :: own.reverse := by
      rw [← List.reverse_reverse (bare name), heq]
      simp
    have h := LiesIn.inside hsplit (by simpa using hown)
    exact ⟨_, h.around_eq ▸ h⟩
  · have h := LiesIn.global hbare
    exact ⟨_, h.around_eq ▸ h⟩

/-- A path leads to the namespace around a name if it leads to the one that the name lies in. -/
theorem prefix_around_iff {path : List String} :
    path <+: around name ↔ ∃ space own, LiesIn name space own ∧ path <+: space := by
  constructor
  · intro h
    obtain ⟨own, hown⟩ := exists_liesIn name
    exact ⟨_, own, hown, h⟩
  · rintro ⟨space, own, hlies, h⟩
    rwa [hlies.around_eq]

/-! ## The tree -/

/-- The tree of a list of names has exactly the paths to the namespaces that the names lie in. It depends on which
names there are, and not on their order or on repetitions. A name is itself in the tree only if another one lies in the
namespace of that name. -/
theorem declarations_prefix_tree (names : List String) :
    (∀ path ≠ [], (ofDeclarations names).Has path ↔
      ∃ n ∈ names, ∃ space own, LiesIn n space own ∧ path <+: space) ∧
    (∀ names', (∀ n, n ∈ names' ↔ n ∈ names) → ofDeclarations names' = ofDeclarations names) ∧
    ∀ n ∈ names, ∀ space own, LiesIn n space own → (ofDeclarations names).Has (space ++ [own]) →
      ∃ m ∈ names, m ≠ n ∧ ∃ space' own', LiesIn m space' own' ∧ space ++ [own] <+: space' := by
  refine ⟨fun path hpath => ?_, fun names' h => ?_, fun n _ space own hlies h => ?_⟩
  · simp only [has_ofDeclarations, hpath, false_or, prefix_around_iff]
  · refine (ordered_ofDeclarations names').eq_of_has (ordered_ofDeclarations names) fun path => ?_
    simp only [has_ofDeclarations, h]
  · obtain ⟨m, hm, hprefix⟩ := ((has_ofDeclarations _ _).1 h).resolve_left (by simp)
    refine ⟨m, hm, ?_, prefix_around_iff.1 hprefix⟩
    -- a name is longer than the namespace that it lies in
    rintro rfl
    rw [hlies.around_eq] at hprefix
    have hlength := hprefix.length_le
    rw [List.length_append, List.length_singleton] at hlength
    omega

/-- `\A\B` lies in `A`, and it is a namespace itself since `A\\B\C` lies in it. -/
theorem repeated_separators_prefix_tree :
    (ofDeclarations ["\\A\\B", "A\\\\B\\C", "\\\\D"]).Has ["A", "B"] ∧
    ofDeclarations ["\\\\D", "A\\\\B\\C", "\\A\\B", "\\\\D"] =
      ofDeclarations ["\\A\\B", "A\\\\B\\C", "\\\\D"] ∧
    ∃ m ∈ ["\\A\\B", "A\\\\B\\C", "\\\\D"], m ≠ "\\A\\B" ∧
      ∃ space own, LiesIn m space own ∧ ["A", "B"] <+: space := by
  obtain ⟨hpaths, hsame, hnode⟩ := declarations_prefix_tree ["\\A\\B", "A\\\\B\\C", "\\\\D"]
  have houter : LiesIn "\\A\\B" ["A"] "B" := .inside (by decide : bare _ = ['A'] ++ '\\' :: ['B']) (by decide)
  have hinner : LiesIn "A\\\\B\\C" ["A", "B"] "C" :=
    .inside (by decide : bare _ = ['A', '\\', '\\', 'B'] ++ '\\' :: ['C']) (by decide)
  have hhas := (hpaths ["A", "B"] (by simp)).2 ⟨_, by simp, _, _, hinner, List.prefix_rfl⟩
  refine ⟨hhas, hsame _ fun n => ?_, hnode _ (by simp) _ _ houter hhas⟩
  simp only [List.mem_cons, List.not_mem_nil, or_false]
  tauto

end ClassScript.NamespaceTree
