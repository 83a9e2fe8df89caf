import ClassScript.Proofs.Registry.Lineage
import ClassScript.Registry.Hierarchy
import Mathlib.Logic.Relation
/-!
# What can be reached

A graph lists the names it knows, each with its links. A link may lead to a name that the graph does not know,
and links may form cycles. One search through a graph finds exactly the names that links lead to
(`Graph.mem_reachable`).

The registry has loops of its own, which follow parents and interfaces. Each is shown to answer as the search
through the graph of the links that it follows: interfaces are collected in the order of the search
(`collect_eq`), a line of parents is followed as far as the search goes (`anyAncestor_eq`), and so are parents and
interfaces together (`hasConstant_eq`).
-/

namespace ClassScript

open Relation

/-- Names with the names they link to. -/
abbrev Graph := List (String × List String)

namespace Graph

/-- The links of a name; there are none of an unknown one. -/
def links (g : Graph) (name : String) : List String := (g.lookup name).getD []

/-- The number of links. -/
def width (g : Graph) : Nat := (g.flatMap (·.2)).length

theorem length_le_width {g : Graph} {n : String} {ls : List String} (h : g.lookup n = some ls) :
    ls.length ≤ g.width := by
  obtain ⟨before, behind, rfl, -⟩ := List.lookup_eq_some_iff.1 h
  simp [width]
  omega

/-- The names that links lead to from the pending names, each once: a name stands before those that
are found through it. The names already `found` come first and are not followed again. -/
def reach (g : Graph) (pending found : List String) : List String :=
  match pending with
  | [] => found.reverse
  | n :: rest =>
    if found.contains n then g.reach rest found
    else match _h : g.lookup n with
      | none => g.reach rest (n :: found)
      | some ls => g.reach (ls ++ rest) (n :: found)
termination_by unseen (·.1) g found * g.width + pending.length
decreasing_by
  · simp
  · have hseen := Nat.mul_le_mul_right g.width (unseen_cons_le (·.1) g found n)
    simp only [List.length_cons]
    omega
  · have hf : found.contains n = false := by simpa using ‹¬found.contains n = true›
    have hlt : unseen (·.1) g (n :: found) < unseen (·.1) g found :=
      unseen_cons_lt (f := (·.1)) (mem_of_lookup _h) hf
    rw [List.length_append, List.length_cons]
    exact search_lt _ hlt (length_le_width _h)

/-- The names that can be reached from the given ones, these included. -/
def reachable (g : Graph) (start : List String) : List String := g.reach start []

variable {g : Graph} {m n : String} {pending found start : List String}

/-- A link leads from the first name to the second. -/
def Linked (g : Graph) (n m : String) : Prop := m ∈ g.links n

theorem reach_cons_of_mem {rest : List String} (h : n ∈ found) :
    g.reach (n :: rest) found = g.reach rest found := by
  rw [reach, if_pos (by simpa using h)]

theorem reach_cons_of_not_mem {rest : List String} (h : n ∉ found) :
    g.reach (n :: rest) found = g.reach (g.links n ++ rest) (n :: found) := by
  rw [reach, if_neg (by simpa using h), links]
  split
  · next hnone => rw [hnone]; rfl
  · next ls hls => rw [hls]; rfl

/-- What is found was found before, or links lead to it from a pending name. -/
theorem reach_sound (h : m ∈ g.reach pending found) :
    m ∈ found ∨ ∃ n ∈ pending, ReflTransGen g.Linked n m := by
  fun_induction g.reach pending found with
  | case1 => exact .inl (List.mem_reverse.1 h)
  | case2 found n rest hn ih =>
    rcases ih h with hm | ⟨k, hk, hkm⟩
    · exact .inl hm
    · exact .inr ⟨k, List.mem_cons_of_mem _ hk, hkm⟩
  | case3 found n rest hn hnone ih =>
    rcases ih h with hm | ⟨k, hk, hkm⟩
    · rcases List.mem_cons.1 hm with rfl | hm
      · exact .inr ⟨m, List.mem_cons_self, .refl⟩
      · exact .inl hm
    · exact .inr ⟨k, List.mem_cons_of_mem _ hk, hkm⟩
  | case4 found n rest hn ls hls ih =>
    rcases ih h with hm | ⟨k, hk, hkm⟩
    · rcases List.mem_cons.1 hm with rfl | hm
      · exact .inr ⟨m, List.mem_cons_self, .refl⟩
      · exact .inl hm
    · rcases List.mem_append.1 hk with hk | hk
      · have hlink : g.Linked n k := by simpa [Linked, links, hls] using hk
        exact .inr ⟨n, List.mem_cons_self, .head hlink hkm⟩
      · exact .inr ⟨k, List.mem_cons_of_mem _ hk, hkm⟩

/-- Nothing found or pending is lost. -/
theorem mem_reach_of_mem (h : m ∈ found ∨ m ∈ pending) : m ∈ g.reach pending found := by
  fun_induction g.reach pending found with
  | case1 => simpa using h
  | case2 found n rest hn ih => exact ih (by grind)
  | case3 found n rest hn hnone ih => exact ih (by grind)
  | case4 found n rest hn ls hls ih => exact ih (by grind)

/-- The names that links lead to are found or pending. -/
def Closed (g : Graph) (found pending : List String) : Prop :=
  ∀ n ∈ found, ∀ m, g.Linked n m → m ∈ found ∨ m ∈ pending

/-- The search ends with a set of names that no link leads out of. -/
theorem reach_closed (h : g.Closed found pending) : g.Closed (g.reach pending found) [] := by
  fun_induction g.reach pending found with
  | case1 found =>
    intro n hn m hnm
    simpa using h n (List.mem_reverse.1 hn) m hnm
  | case2 found n rest hn ih =>
    refine ih fun k hk m hkm => ?_
    have := h k hk m hkm
    grind
  | case3 found n rest hn hnone ih =>
    refine ih fun k hk m hkm => ?_
    rcases List.mem_cons.1 hk with rfl | hk
    · simp [Linked, links, hnone] at hkm
    · have := h k hk m hkm
      grind
  | case4 found n rest hn ls hls ih =>
    refine ih fun k hk m hkm => ?_
    rcases List.mem_cons.1 hk with rfl | hk
    · have hm : m ∈ ls := by simpa [Linked, links, hls] using hkm
      exact .inr (List.mem_append_left _ hm)
    · have := h k hk m hkm
      grind

/-- The search finds what links lead to. -/
theorem mem_reachable : m ∈ g.reachable start ↔ ∃ n ∈ start, ReflTransGen g.Linked n m := by
  constructor
  · intro h
    rcases reach_sound h with hm | hm
    · cases hm
    · exact hm
  · rintro ⟨n, hn, hnm⟩
    have hclosed : g.Closed (g.reachable start) [] := reach_closed (by simp [Closed])
    induction hnm with
    | refl => exact mem_reach_of_mem (.inr hn)
    | tail _ hlink ih => exact (hclosed _ ih _ hlink).resolve_right List.not_mem_nil

end Graph

namespace Registry

variable {r : Registry} {older : List ClassEntry} {c e : ClassEntry} {n m : String}

/-! ## The graphs of a registry -/

/-- Interfaces with those they extend. -/
def interfaceGraph (r : Registry) : Graph := r.interfaces.map fun i => (i.name, i.parents)

/-- Classes with their parents. -/
def parentGraph (r : Registry) : Graph := r.classes.map fun c => (c.name, c.parent.toList)

/-- All entries with their parents and interfaces, the last that an entry names first. -/
def ancestorGraph (r : Registry) : Graph :=
  r.classes.map (fun c => (c.name, c.interfaces.reverse ++ c.parent.toList)) ++
    r.interfaces.map fun i => (i.name, i.parents.reverse)

/-- A table made from entries is searched as the entries are. -/
theorem lookup_map {α β : Type} (key : α → String) (value : α → β) (as : List α) (n : String) :
    (as.map fun a => (key a, value a)).lookup n = (as.find? (key · == n)).map value := by
  induction as with
  | nil => rfl
  | cons a as ih =>
    by_cases h : n = key a
    · simp [h]
    · simp [List.lookup_cons, beq_eq_false_iff_ne.2 h, beq_eq_false_iff_ne.2 (Ne.symm h), ih]

theorem links_parentGraph (r : Registry) (n : String) :
    r.parentGraph.links n = ((r.class? n).bind (·.parent)).toList := by
  rw [Graph.links, parentGraph, lookup_map, ← class?]
  cases r.class? n <;> rfl

theorem links_interfaceGraph (r : Registry) (n : String) :
    r.interfaceGraph.links n = ((r.interface? n).map (·.parents)).getD [] := by
  rw [Graph.links, interfaceGraph, lookup_map, ← interface?]

theorem links_ancestorGraph (r : Registry) (n : String) : r.ancestorGraph.links n =
    match r.class? n with
    | some c => c.interfaces.reverse ++ c.parent.toList
    | none => (r.interfaceGraph.links n).reverse := by
  rw [links_interfaceGraph, Graph.links, ancestorGraph, List.lookup_append, lookup_map, lookup_map, ← class?,
    ← interface?]
  cases r.class? n <;> cases r.interface? n <;> rfl

/-! ## The loops of a registry -/

/-- Collecting some names first and then others is one search. -/
theorem reach_collect (r : Registry) (found names rest : List String) :
    r.interfaceGraph.reach (names ++ rest) found.reverse
      = r.interfaceGraph.reach rest (r.collect found names).1.reverse := by
  fun_induction r.collect found names generalizing rest with
  | case1 found => rfl
  | case2 found n names hn ih =>
    rw [List.cons_append, Graph.reach_cons_of_mem (by simpa using hn)]
    exact ih rest
  | case3 found n names hn hnone out ih =>
    rw [List.cons_append, Graph.reach_cons_of_not_mem (by simpa using hn), links_interfaceGraph, hnone]
    simpa using ih rest
  | case4 found n names hn e he above out ihabove ih =>
    rw [List.cons_append, Graph.reach_cons_of_not_mem (by simpa using hn), links_interfaceGraph, he]
    have hfirst := ihabove (names ++ rest)
    rw [List.reverse_append] at hfirst
    exact hfirst.trans (ih rest)

theorem collect_eq (r : Registry) (names : List String) :
    (r.collect [] names).1 = r.interfaceGraph.reachable names := by
  have h := r.reach_collect [] names []
  rw [List.append_nil, Graph.reach, List.reverse_reverse] at h
  exact h.symm

theorem declaredInterfaces_eq {cls : String} (h : r.class? cls = some c) :
    r.declaredInterfaces cls = .ok (r.interfaceGraph.reachable c.interfaces) := by
  rw [declaredInterfaces, requireClass, h, ← collect_eq]
  rfl

/-- The line of parents has a class as asked, or one was visited before, if the search finds one. -/
theorem any_reach_parents (r : Registry) (asked : ClassEntry → Bool) (visited : List String) (cls : String) :
    ((r.parentGraph.reach [cls] visited).any fun n => (r.class? n).any asked)
      = ((visited.any fun n => (r.class? n).any asked) || r.anyAncestor asked visited cls) := by
  fun_induction r.anyAncestor asked visited cls with
  | case1 visited cls hnone =>
    by_cases hv : cls ∈ visited
    · simp [Graph.reach_cons_of_mem hv, Graph.reach]
    · simp [Graph.reach_cons_of_not_mem hv, Graph.reach, links_parentGraph, hnone]
  | case2 visited cls c hc hv =>
    obtain rfl := class?_name hc
    simp [Graph.reach_cons_of_mem (List.contains_iff_mem.1 hv), Graph.reach]
  | case3 visited cls c hc hv hasked =>
    rw [Bool.or_true, List.any_eq_true]
    exact ⟨cls, Graph.mem_reach_of_mem (.inr (.head _)), by simpa [hc] using hasked⟩
  | case4 visited cls c hc hv hasked hroot =>
    obtain rfl := class?_name hc
    rw [Graph.reach_cons_of_not_mem (by simpa using hv), links_parentGraph, hc]
    simp [Graph.reach, hroot, hc, hasked]
  | case5 visited cls c hc hv hasked p hp ih =>
    obtain rfl := class?_name hc
    rw [Graph.reach_cons_of_not_mem (by simpa using hv), links_parentGraph, hc, Option.bind_some, hp]
    refine ih.trans ?_
    simp [hc, hasked]

theorem anyAncestor_eq (r : Registry) (asked : ClassEntry → Bool) (cls : String) :
    r.anyAncestor asked [] cls = (r.parentGraph.reachable [cls]).any fun n => (r.class? n).any asked :=
  (r.any_reach_parents asked [] cls).symm

/-- Whether an entry itself declares a constant. -/
def declaresConstant (r : Registry) (owner constant : String) : Bool :=
  match r.class? owner with
  | some c => (c.constants.lookup constant).isSome
  | none => match r.interface? owner with
    | some i => (i.constants.lookup constant).isSome
    | none => false

/-- Something above the pending names declares the constant, or a visited entry does, if the search finds one
that does. -/
theorem any_reach_ancestors (r : Registry) (constant : String) (visited pending : List String) :
    (r.ancestorGraph.reach pending visited).any (r.declaresConstant · constant)
      = (visited.any (r.declaresConstant · constant) || r.constantAbove constant visited pending) := by
  fun_induction r.constantAbove constant visited pending with
  | case1 visited => simp [Graph.reach]
  | case2 visited n rest hv ih => rw [Graph.reach_cons_of_mem (by simpa using hv), ih]
  | case3 visited n rest hv c hc hdeclares =>
    rw [Bool.or_true, List.any_eq_true]
    exact ⟨n, Graph.mem_reach_of_mem (.inr (.head _)), by simpa [declaresConstant, hc] using hdeclares⟩
  | case4 visited n rest hv c hc hdeclares ih =>
    rw [Graph.reach_cons_of_not_mem (by simpa using hv), links_ancestorGraph, hc]
    refine ih.trans ?_
    simp [declaresConstant, hc, hdeclares]
  | case5 visited n rest hv hc i hi hdeclares =>
    rw [Bool.or_true, List.any_eq_true]
    exact ⟨n, Graph.mem_reach_of_mem (.inr (.head _)), by simpa [declaresConstant, hc, hi] using hdeclares⟩
  | case6 visited n rest hv hc i hi hdeclares ih =>
    rw [Graph.reach_cons_of_not_mem (by simpa using hv), links_ancestorGraph, hc, links_interfaceGraph, hi]
    refine ih.trans ?_
    simp [declaresConstant, hc, hi, hdeclares]
  | case7 visited n rest hv hc hi ih =>
    rw [Graph.reach_cons_of_not_mem (by simpa using hv), links_ancestorGraph, hc, links_interfaceGraph, hi]
    refine ih.trans ?_
    simp [declaresConstant, hc, hi]

theorem hasConstant_eq (r : Registry) (owner constant : String) :
    r.hasConstant owner constant
      = (r.ancestorGraph.reachable [owner]).any (r.declaresConstant · constant) :=
  (r.any_reach_ancestors constant [] [owner]).symm

/-! ## What stands above a class -/

/-- The names above the last class of a lineage are those of the lineage. -/
theorem Lineage.mem_ancestors (h : Lineage r (older ++ [e])) :
    m ∈ r.parentGraph.reachable [e.name] ↔ ∃ a ∈ older ++ [e], a.name = m := by
  rw [Graph.mem_reachable]
  simp only [List.mem_singleton, exists_eq_left]
  induction older using List.reverseRecOn generalizing e with
  | nil =>
    have hlinks : r.parentGraph.links e.name = [] := by
      rw [links_parentGraph, h.known e (by simp)]
      simp [h.parent_none]
    rw [ReflTransGen.cases_head_iff]
    simp [Graph.Linked, hlinks]
  | append_singleton older p ih =>
    have hlinks : r.parentGraph.links e.name = [p.name] := by
      have hparent : e.parent = some p.name := by
        rw [List.append_assoc] at h
        exact h.parent_some
      rw [links_parentGraph, h.known e (by simp)]
      simp [hparent]
    rw [ReflTransGen.cases_head_iff]
    simp only [Graph.Linked, hlinks, List.mem_singleton, exists_eq_left]
    rw [ih h.of_append]
    simp only [List.mem_append, List.mem_singleton, or_and_right, exists_or, exists_eq_left]
    exact or_comm

theorem implements_iff_reachable {cls i : String} : r.implements cls i = true ↔
    ∃ c, (∃ d ∈ r.parentGraph.reachable [cls], r.class? d = some c) ∧ i ∈ r.interfaceGraph.reachable c.interfaces := by
  simp only [implements, anyAncestor_eq, collect_eq, List.any_eq_true, Option.any_eq_true, List.contains_eq_mem,
    decide_eq_true_eq]
  constructor
  · rintro ⟨d, hd, c, hc, hi⟩
    exact ⟨c, ⟨d, hd, hc⟩, hi⟩
  · rintro ⟨c, ⟨d, hd, hc⟩, hi⟩
    exact ⟨d, hd, c, hc, hi⟩

/-- The last class of a lineage has an interface if some class of the lineage lists it or one below. -/
theorem Lineage.implements_iff (h : Lineage r (older ++ [e])) :
    r.implements e.name n = true ↔
      ∃ a ∈ older ++ [e], n ∈ r.interfaceGraph.reachable a.interfaces := by
  simp only [implements_iff_reachable, h.mem_ancestors]
  constructor
  · rintro ⟨c, ⟨_, ⟨a, ha, rfl⟩, hc⟩, hn⟩
    obtain rfl : a = c := Option.some.inj ((h.known a ha).symm.trans hc)
    exact ⟨a, ha, hn⟩
  · rintro ⟨a, ha, hn⟩
    exact ⟨a, ⟨a.name, ⟨a, ha, rfl⟩, h.known a ha⟩, hn⟩

end Registry

end ClassScript
