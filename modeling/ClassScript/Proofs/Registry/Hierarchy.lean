import ClassScript.Proofs.Registry.Growth
/-!
# What stands above a class

The registry follows parents and interfaces by a search that remembers what it has found. Here its answers are
compared with the links that the entries themselves give (`ChildOf`, `Lists`, `Extends`), however these run in
circles, meet again or lead to names without an entry (`hierarchy_answers`).
-/

namespace ClassScript

open Relation

/-- A search finds no name twice. -/
theorem Graph.reach_nodup {g : Graph} {pending found : List String} (h : found.Nodup) :
    (g.reach pending found).Nodup := by
  fun_induction g.reach pending found with
  | case1 found => exact List.nodup_reverse.2 h
  | case2 found n rest hn ih => exact ih h
  | case3 found n rest hn hnone ih => exact ih (List.nodup_cons.2 ⟨by simpa using hn, h⟩)
  | case4 found n rest hn ls hls ih => exact ih (List.nodup_cons.2 ⟨by simpa using hn, h⟩)

namespace Registry

variable {r : Registry}

/-! ## Links -/

/-- The first name is that of a class, and the second is the parent that it names. -/
def ChildOf (r : Registry) (n p : String) : Prop := ∃ c, r.class? n = some c ∧ c.parent = some p

/-- A class lists an interface. -/
def Lists (r : Registry) (n i : String) : Prop := ∃ c, r.class? n = some c ∧ i ∈ c.interfaces

/-- The first name is that of an interface, which extends the second. -/
def Extends (r : Registry) (n i : String) : Prop := ∃ e, r.interface? n = some e ∧ i ∈ e.parents

/-- What stands directly above a class or an interface. -/
def Above (r : Registry) (n m : String) : Prop := r.ChildOf n m ∨ r.Lists n m ∨ r.Extends n m

/-- A class or an interface declares a constant itself. -/
def Declares (r : Registry) (n k : String) : Prop :=
  (∃ c, r.class? n = some c ∧ k ∈ c.constants.map (·.1)) ∨ ∃ i, r.interface? n = some i ∧ k ∈ i.constants.map (·.1)

theorem linked_parentGraph : r.parentGraph.Linked = r.ChildOf := by
  ext n p
  rw [Graph.Linked, links_parentGraph, ChildOf]
  cases r.class? n <;> simp

theorem linked_interfaceGraph : r.interfaceGraph.Linked = r.Extends := by
  ext n i
  rw [Graph.Linked, links_interfaceGraph, Extends]
  cases r.interface? n <;> simp

/-- As no name is that of a class and of an interface, the search loses no link by looking for a class first. -/
theorem Apart.linked_ancestorGraph (h : r.Apart) : r.ancestorGraph.Linked = r.Above := by
  ext n m
  have hinterface : m ∈ r.interfaceGraph.links n ↔ r.Extends n m := by rw [← linked_interfaceGraph]; rfl
  rw [Graph.Linked, links_ancestorGraph, Above, ChildOf, Lists]
  cases hc : r.class? n with
  | none => simp [hinterface]
  | some c =>
    have hnone : ¬ r.Extends n m := by simp [Extends, h n (by simp [hc])]
    simp [hnone, or_comm]

theorem Apart.declaresConstant_iff (h : r.Apart) {n k : String} :
    r.declaresConstant n k = true ↔ r.Declares n k := by
  unfold declaresConstant Declares
  cases hc : r.class? n with
  | none => cases r.interface? n <;> simp
  | some c =>
    have hnone := h n (by simp [hc])
    simp [hnone]

/-! ## Answers -/

theorem implements_iff {c i : String} : r.implements c i = true ↔
    ∃ d j, ReflTransGen r.ChildOf c d ∧ r.Lists d j ∧ ReflTransGen r.Extends j i := by
  simp only [implements_iff_reachable, Graph.mem_reachable, List.mem_singleton, exists_eq_left, linked_parentGraph,
    linked_interfaceGraph]
  constructor
  · rintro ⟨e, ⟨d, hd, he⟩, j, hj, hi⟩
    exact ⟨d, j, hd, ⟨e, he, hj⟩, hi⟩
  · rintro ⟨d, j, hd, ⟨e, he, hj⟩, hi⟩
    exact ⟨e, ⟨d, hd, he⟩, j, hj, hi⟩

/-- Whatever a registry was told and asked, its answers about the hierarchy are what links lead to. A class has
an interface if a class at or above it lists one that is this interface or extends it, be it through others. The
interfaces that a known class declares are listed, each once; an unknown class has no list. A constant is in reach
if a class or interface at or above the name declares it. -/
theorem hierarchy_answers (requests : List Request) :
    let r := ((serve visibility requests).run {}).2
    (∀ c i, r.implements c i = true ↔
      ∃ d j, ReflTransGen r.ChildOf c d ∧ r.Lists d j ∧ ReflTransGen r.Extends j i) ∧
    (∀ c, ((∃ e, r.class? c = some e) → ∃ names, r.declaredInterfaces c = .ok names ∧ names.Nodup ∧
        ∀ i, i ∈ names ↔ ∃ j, r.Lists c j ∧ ReflTransGen r.Extends j i) ∧
      (r.class? c = none → r.declaredInterfaces c = .error (.unknownClass c))) ∧
    ∀ o k, r.hasConstant o k = true ↔ ∃ m, ReflTransGen r.Above o m ∧ r.Declares m k := by
  intro r
  have hapart : r.Apart := apart_of_nodup (serve_nodup requests)
  refine ⟨fun c i => implements_iff, fun c => ⟨?_, fun hc => ?_⟩, fun o k => ?_⟩
  · rintro ⟨e, he⟩
    refine ⟨_, declaredInterfaces_eq he, Graph.reach_nodup List.nodup_nil, fun i => ?_⟩
    rw [Graph.mem_reachable, linked_interfaceGraph]
    simp [Lists, he]
  · rw [declaredInterfaces, requireClass, hc]
    rfl
  · simp only [hasConstant_iff, hapart.linked_ancestorGraph, hapart.declaresConstant_iff]

/-- Two classes that are parents of each other, and two interfaces that extend each other and one that is not
known. -/
def circleRequests : List Request :=
  [.addClass (plainClass "Upper" (some "Lower") ["Even"]) false, .addClass (plainClass "Lower" (some "Upper") []) false,
    .addInterface (plainInterface "Even" ["Odd"]) false, .addInterface (plainInterface "Odd" ["Even", "Count"]) false]

theorem circleRequests_hierarchy :
    let r := ((serve visibility circleRequests).run {}).2
    r.implements "Lower" "Count" = true ∧ r.interface? "Count" = none ∧
      ∃ names, r.declaredInterfaces "Upper" = .ok names ∧ names.Nodup ∧ "Count" ∈ names := by
  intro r
  obtain ⟨himplements, hdeclared, -⟩ := hierarchy_answers circleRequests
  have hupper : r.class? "Upper" = some ⟨"Upper", some "Lower", ["Even"], [], [], [], false⟩ := by decide +kernel
  have hlower : r.class? "Lower" = some ⟨"Lower", some "Upper", [], [], [], [], false⟩ := by decide +kernel
  have heven : r.interface? "Even" = some ⟨"Even", ["Odd"], [], [], false⟩ := by decide +kernel
  have hodd : r.interface? "Odd" = some ⟨"Odd", ["Even", "Count"], [], [], false⟩ := by decide +kernel
  have hlists : r.Lists "Upper" "Even" := ⟨_, hupper, by decide⟩
  have hextends : ReflTransGen r.Extends "Even" "Count" :=
    .head ⟨_, heven, by decide⟩ (.single ⟨_, hodd, by decide⟩)
  refine ⟨(himplements _ _).2 ⟨"Upper", "Even", .single ⟨_, hlower, rfl⟩, hlists, hextends⟩, by decide +kernel, ?_⟩
  obtain ⟨names, hnames, hnodup, hmem⟩ := (hdeclared "Upper").1 ⟨_, hupper⟩
  exact ⟨names, hnames, hnodup, (hmem "Count").2 ⟨"Even", hlists, hextends⟩⟩

end Registry

end ClassScript
