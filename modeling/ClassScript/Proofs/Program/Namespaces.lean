import ClassScript.NamespaceTree
import ClassScript.Search
import ClassScript.Text.Dictionary
import Mathlib.Data.List.Basic
/-!
# The paths of a namespace tree

A tree has a path if its segments lead down from the root. Adding a path adds the path itself and
what leads to it, and nothing else (`has_insertPath`), so a tree of declarations has exactly the paths
around them (`has_ofDeclarations`).
-/

namespace ClassScript.NamespaceTree

/-- Whether the segments lead down from the root. -/
def Has : NamespaceTree → List String → Prop
  | _, [] => True
  | t, s :: path => ∃ child, t.children.lookup s = some child ∧ child.Has path

/-- The children of every node are in strict order. -/
inductive Ordered : NamespaceTree → Prop where
  | node {cs : List (String × NamespaceTree)} (strict : cs.Pairwise (·.1 < ·.1))
      (below : ∀ c ∈ cs, Ordered c.2) : Ordered (node cs)

@[simp]
theorem children_node (cs : List (String × NamespaceTree)) : (node cs).children = cs := rfl

theorem ordered_empty : Ordered empty := .node .nil nofun

theorem Ordered.strict {t : NamespaceTree} (h : t.Ordered) : t.children.Pairwise (·.1 < ·.1) := by
  cases h
  assumption

theorem Ordered.child {t : NamespaceTree} (h : t.Ordered) : ∀ c ∈ t.children, Ordered c.2 := by
  cases h
  assumption

/-! ## One level -/

variable {f : NamespaceTree → NamespaceTree} {cs : List (String × NamespaceTree)}

theorem mem_modifyChild {segment : String} {c : String × NamespaceTree}
    (h : c ∈ modifyChild segment f cs) : c ∈ cs ∨ c.1 = segment ∧ (c.2 = f empty ∨ ∃ x ∈ cs, c.2 = f x.2) := by
  induction cs with
  | nil =>
    obtain rfl := List.mem_singleton.1 h
    exact .inr ⟨rfl, .inl rfl⟩
  | cons x cs ih =>
    rw [modifyChild] at h
    split at h
    · next heq =>
      rcases List.mem_cons.1 h with rfl | h
      · exact .inr ⟨heq.symm, .inr ⟨x, .head _, rfl⟩⟩
      · exact .inl (.tail _ h)
    · split at h
      · rcases List.mem_cons.1 h with rfl | h
        · exact .inr ⟨rfl, .inl rfl⟩
        · exact .inl h
      · rcases List.mem_cons.1 h with rfl | h
        · exact .inl (.head _)
        · rcases ih h with h | ⟨hs, h | ⟨y, hy, h⟩⟩
          · exact .inl (.tail _ h)
          · exact .inr ⟨hs, .inl h⟩
          · exact .inr ⟨hs, .inr ⟨y, .tail _ hy, h⟩⟩

theorem pairwise_modifyChild (segment : String) (h : cs.Pairwise (·.1 < ·.1)) :
    (modifyChild segment f cs).Pairwise (·.1 < ·.1) := by
  induction cs with
  | nil => exact List.pairwise_singleton _ _
  | cons x cs ih =>
    obtain ⟨hx, hcs⟩ := List.pairwise_cons.1 h
    rw [modifyChild]
    split
    · exact List.pairwise_cons.2 ⟨hx, hcs⟩
    · next hne =>
      split
      · next hlt =>
        refine List.pairwise_cons.2 ⟨fun y hy => ?_, h⟩
        rcases List.mem_cons.1 hy with rfl | hy
        · exact hlt
        · exact String.lt_trans hlt (hx y hy)
      · next hge =>
        refine List.pairwise_cons.2 ⟨fun y hy => ?_, ih hcs⟩
        rcases mem_modifyChild hy with hy | ⟨rfl, -⟩
        · exact hx y hy
        · by_contra hle
          exact hne (String.le_antisymm (String.not_lt.1 hle) (String.not_lt.1 hge))

theorem lookup_eq_none_of_lt {s : String} (h : ∀ c ∈ cs, s < c.1) : cs.lookup s = none := by
  refine List.lookup_eq_none_iff.2 fun c hc => ?_
  have hlt := h c hc
  by_contra heq
  rw [show s = c.1 by simpa using heq] at hlt
  exact String.lt_irrefl _ hlt

/-- Only the child at the segment changes. -/
theorem lookup_modifyChild (segment s : String) (h : cs.Pairwise (·.1 < ·.1)) :
    (modifyChild segment f cs).lookup s =
      if s = segment then some (f ((cs.lookup segment).getD empty)) else cs.lookup s := by
  induction cs with
  | nil => simp only [modifyChild, Dictionary.lookup_cons_ite, List.lookup_nil, Option.getD_none]
  | cons x cs ih =>
    obtain ⟨hx, hcs⟩ := List.pairwise_cons.1 h
    obtain ⟨k, t⟩ := x
    rw [modifyChild]
    split
    · next heq =>
      subst heq
      simp only [Dictionary.lookup_cons_ite, if_true, Option.getD_some]
      split <;> rfl
    · next hne =>
      split
      · next hlt =>
        have hnone : cs.lookup segment = none :=
          lookup_eq_none_of_lt fun c hc => String.lt_trans hlt (hx c hc)
        simp only [Dictionary.lookup_cons_ite, if_neg hne, hnone, Option.getD_none]
      · rw [Dictionary.lookup_cons_ite, ih hcs, Dictionary.lookup_cons_ite, if_neg hne,
          Dictionary.lookup_cons_ite]
        by_cases hs : s = k
        · subst hs
          simp only [if_true, if_neg (Ne.symm hne)]
        · simp only [if_neg hs]

/-! ## Whole trees -/

theorem ordered_insertPath (path : List String) {t : NamespaceTree} (h : t.Ordered) :
    (insertPath path t).Ordered := by
  induction path generalizing t with
  | nil => exact h
  | cons s path ih =>
    refine .node (pairwise_modifyChild s h.strict) fun c hc => ?_
    rcases mem_modifyChild hc with hc | ⟨-, hc | ⟨x, hx, hc⟩⟩
    · exact h.child c hc
    · exact hc ▸ ih ordered_empty
    · exact hc ▸ ih (h.child x hx)

theorem has_empty {path : List String} : empty.Has path ↔ path = [] := by
  cases path with
  | nil => simp [Has]
  | cons s path => simp [Has, empty]

/-- Adding a path adds what leads to it. -/
theorem has_insertPath (path q : List String) {t : NamespaceTree} (h : t.Ordered) :
    (insertPath path t).Has q ↔ t.Has q ∨ q <+: path := by
  induction path generalizing t q with
  | nil =>
    rw [insertPath, List.prefix_nil]
    exact ⟨.inl, fun hq => hq.elim id fun hq => hq ▸ trivial⟩
  | cons s path ih =>
    cases q with
    | nil => simp [Has]
    | cons s' q =>
      simp only [Has, insertPath, children_node, lookup_modifyChild s s' h.strict, List.cons_prefix_cons]
      by_cases hs : s' = s
      · subst hs
        simp only [if_true, Option.some.injEq, true_and, exists_eq_left']
        cases hl : t.children.lookup s' with
        | none =>
          rw [Option.getD_none, ih q ordered_empty, has_empty]
          simp only [reduceCtorEq, false_and, exists_false, false_or, or_iff_right_iff_imp]
          rintro rfl
          exact List.nil_prefix
        | some child =>
          rw [Option.getD_some, ih q (h.child _ (mem_of_lookup hl))]
          simp
      · simp only [hs, if_false, false_and, or_false]

/-- The namespaces around a declaration. -/
def around (qualified : String) : List String := pathOf (segments '\\' qualified.toList).dropLast

/-- A tree of declarations has exactly the paths around them. -/
theorem has_ofDeclarations (names q : List String) :
    (ofDeclarations names).Has q ↔ q = [] ∨ ∃ n ∈ names, q <+: around n := by
  have hfold (t : NamespaceTree) (h : t.Ordered) :
      (names.foldl insertDeclaration t).Has q ↔ t.Has q ∨ ∃ n ∈ names, q <+: around n := by
    induction names generalizing t with
    | nil => simp
    | cons n names ih =>
      have hn : (t.insertDeclaration n).Has q ↔ t.Has q ∨ q <+: around n := has_insertPath _ q h
      rw [List.foldl_cons, ih (t.insertDeclaration n) (ordered_insertPath _ h), hn, or_assoc]
      simp
  rw [ofDeclarations, hfold empty ordered_empty, has_empty]

end ClassScript.NamespaceTree
