import ClassScript.Proofs.Registry.Reach
import ClassScript.Registry.Order
/-!
# Tables of constants

A class or interface starts its table of constants with copies of other tables and adds its own
constants. Which names the table then has is said by `InTable`; it is compared with the question that
the registry answers, which follows all parents and interfaces (`hasConstant_iff_inTable`).
-/

namespace ClassScript

open Relation

namespace Registry

variable {r r' : Registry}

/-! ## Where tables come from -/

/-- The interfaces whose tables a class copies: those that can be reached and are known. -/
def tableInterfaces (r : Registry) (e : ClassEntry) : List String :=
  (r.interfaceGraph.reachable e.interfaces).filter fun i => (r.interface? i).isSome

/-- The declarations whose tables a class or interface copies. -/
def tableSources (r : Registry) (n : String) : List String :=
  match r.class? n with
  | some c => c.parent.toList ++ r.tableInterfaces c
  | none => match r.interface? n with
    | some i => i.parents
    | none => []

theorem tableSources_class {n : String} {c : ClassEntry} (h : r.class? n = some c) :
    r.tableSources n = c.parent.toList ++ r.tableInterfaces c := by
  rw [tableSources, h]

theorem tableSources_interface {n : String} {i : InterfaceEntry} (hc : r.class? n = none)
    (h : r.interface? n = some i) : r.tableSources n = i.parents := by
  rw [tableSources, hc, h]

/-- The table of a declaration has a constant: its own, or one from a table that it copies. -/
inductive InTable (r : Registry) : String → String → Prop
  | own {n k : String} : r.declaresConstant n k = true → InTable r n k
  | copied {n m k : String} : m ∈ r.tableSources n → InTable r m k → InTable r n k

/-- Classes and interfaces have different names. -/
def Apart (r : Registry) : Prop := ∀ n, (r.class? n).isSome = true → r.interface? n = none

theorem Apart.class?_eq_none (h : r.Apart) {n : String} {i : InterfaceEntry} (hi : r.interface? n = some i) :
    r.class? n = none := by
  cases hc : r.class? n with
  | none => rfl
  | some _ => cases hi.symm.trans (h n (by simp [hc]))

theorem apart_of_nodup (h : r.names.Nodup) : r.Apart := by
  intro n hn
  obtain ⟨c, hc⟩ := Option.isSome_iff_exists.1 hn
  cases hi : r.interface? n with
  | none => rfl
  | some i =>
    have hclass : n ∈ r.classes.map (·.name) := class?_name hc ▸ List.mem_map_of_mem (class?_mem hc)
    have hinterface : n ∈ r.interfaces.map (·.name) := interface?_name hi ▸ List.mem_map_of_mem (interface?_mem hi)
    exact absurd hinterface (List.disjoint_of_nodup_append h hclass)

/-- The interfaces above an interface are also found among all entries. -/
theorem Apart.linked (h : r.Apart) {n m : String} (hnm : r.interfaceGraph.Linked n m) :
    r.ancestorGraph.Linked n m := by
  unfold Graph.Linked at hnm ⊢
  rw [links_ancestorGraph]
  cases hc : r.class? n with
  | none => exact List.mem_reverse.2 hnm
  | some c =>
    rw [links_interfaceGraph, h n (by simp [hc])] at hnm
    cases hnm

/-- A table is copied from above only. -/
theorem Apart.reaches_tableSource (h : r.Apart) {n m : String} (hm : m ∈ r.tableSources n) :
    ReflTransGen r.ancestorGraph.Linked n m := by
  unfold tableSources at hm
  have hlinks := links_ancestorGraph r n
  split at hm
  · next c hc =>
    rw [hc] at hlinks
    rcases List.mem_append.1 hm with hm | hm
    · refine .single ?_
      rw [Graph.Linked, hlinks]
      exact List.mem_append_right _ hm
    · obtain ⟨i, hi, him⟩ := Graph.mem_reachable.1 (List.mem_filter.1 hm).1
      refine .head ?_ (ReflTransGen.mono (fun _ _ hlink => h.linked hlink) _ _ him)
      rw [Graph.Linked, hlinks]
      exact List.mem_append_left _ (List.mem_reverse.2 hi)
  · next hc =>
    rw [hc] at hlinks
    split at hm
    · next i hi =>
      refine .single ?_
      rw [Graph.Linked, hlinks, links_interfaceGraph, hi]
      exact List.mem_reverse.2 hm
    · cases hm

theorem hasConstant_iff {n k : String} : r.hasConstant n k = true ↔
    ∃ m, ReflTransGen r.ancestorGraph.Linked n m ∧ r.declaresConstant m k = true := by
  simp [hasConstant_eq, Graph.mem_reachable]

/-- Whatever a table has, the registry knows of. -/
theorem InTable.hasConstant (h : r.Apart) {n k : String} (hk : InTable r n k) : r.hasConstant n k = true := by
  rw [hasConstant_iff]
  induction hk with
  | own hk => exact ⟨_, .refl, hk⟩
  | copied hm _ ih =>
    obtain ⟨d, hd, hk⟩ := ih
    exact ⟨d, (h.reaches_tableSource hm).trans hd, hk⟩

/-- A name without an entry has no table. -/
theorem InTable.known {n k : String} (hk : InTable r n k) : r.contains n = true := by
  unfold contains
  cases hk with
  | own hk =>
    unfold declaresConstant at hk
    grind
  | copied hm _ =>
    unfold tableSources at hm
    grind

/-- What stands above a declaration gives its table, unless it is a class among the interfaces of one. -/
theorem mem_tableSources {n m : String} (hlink : r.ancestorGraph.Linked n m) (hm : r.contains m = true) :
    m ∈ r.tableSources n ∨ ∃ c, r.class? n = some c ∧ m ∈ c.interfaces ∧ (r.class? m).isSome = true := by
  unfold Graph.Linked at hlink
  rw [links_ancestorGraph] at hlink
  unfold tableSources
  cases hc : r.class? n with
  | some c =>
    rw [hc] at hlink
    rcases List.mem_append.1 hlink with hlink | hlink
    · have hlisted := List.mem_reverse.1 hlink
      by_cases hclass : (r.class? m).isSome = true
      · exact .inr ⟨c, rfl, hlisted, hclass⟩
      · have hinterface : (r.interface? m).isSome = true := by simpa [contains, hclass] using hm
        have hreach : m ∈ r.interfaceGraph.reachable c.interfaces := Graph.mem_reachable.2 ⟨m, hlisted, .refl⟩
        exact .inl (List.mem_append_right _ (List.mem_filter.2 ⟨hreach, hinterface⟩))
    · exact .inl (List.mem_append_left _ hlink)
  | none =>
    rw [hc, links_interfaceGraph] at hlink
    cases hi : r.interface? n with
    | some i =>
      rw [hi] at hlink
      exact .inl (List.mem_reverse.1 hlink)
    | none =>
      rw [hi] at hlink
      cases hlink

/-- The answer of the registry and the tables agree exactly if a class that stands among the interfaces
of another one adds nothing to its table. -/
theorem hasConstant_iff_inTable (h : r.Apart) :
    (∀ n k, r.hasConstant n k = true ↔ InTable r n k) ↔
      ∀ n c m k, r.class? n = some c → m ∈ c.interfaces → (r.class? m).isSome = true →
        InTable r m k → InTable r n k := by
  constructor
  · intro hagree n c m k hc hm _ hk
    obtain ⟨d, hd, hdk⟩ := hasConstant_iff.1 (hk.hasConstant h)
    refine (hagree n k).1 (hasConstant_iff.2 ⟨d, .head ?_ hd, hdk⟩)
    rw [Graph.Linked, links_ancestorGraph, hc]
    exact List.mem_append_left _ (List.mem_reverse.2 hm)
  · intro hlisted n k
    refine ⟨fun hk => ?_, InTable.hasConstant h⟩
    obtain ⟨d, hd, hdk⟩ := hasConstant_iff.1 hk
    -- from the declaration down to the name that is asked for
    induction hd using ReflTransGen.head_induction_on with
    | refl => exact .own hdk
    | @head n m hlink _ ih =>
      have hm := ih (hasConstant_iff.2 ⟨d, ‹_›, hdk⟩)
      rcases mem_tableSources hlink hm.known with hsource | ⟨c, hc, hm', hclass⟩
      · exact .copied hsource hm
      · exact hlisted n c m k hc hm' hclass hm

end Registry

end ClassScript
