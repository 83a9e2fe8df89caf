import ClassScript.Registry.Basic
/-!
# Hierarchy

Which interfaces a class has, and which constants are in reach, are questions of what stands above it.
Each is answered by a loop that follows parents and interfaces and leaves out what it has met before, so
that it ends on every registry. Names without an entry lead nowhere.
-/

namespace ClassScript

namespace Registry

/-! ## Interfaces -/

/-- How often an interface extends another. -/
def extensions (r : Registry) : Nat := (r.interfaces.flatMap (·.parents)).length

theorem length_parents_le {r : Registry} {e : InterfaceEntry} (h : e ∈ r.interfaces) :
    e.parents.length ≤ r.extensions := by
  obtain ⟨before, behind, heq⟩ := List.append_of_mem h
  simp [extensions, heq]
  omega

/-- Adds the named interfaces and all that these extend to those found, each before those it extends. -/
def collect (r : Registry) (found : List String) : List String → { out : List String // found ⊆ out }
  | [] => ⟨found, List.Subset.refl _⟩
  | n :: rest =>
    if found.contains n then r.collect found rest
    else match _h : r.interface? n with
      | none =>
        let out := r.collect (found ++ [n]) rest
        ⟨out.1, fun _ hm => out.2 (List.mem_append_left _ hm)⟩
      | some e =>
        let above := r.collect (found ++ [n]) e.parents
        let out := r.collect above.1 rest
        ⟨out.1, fun _ hm => out.2 (above.2 (List.mem_append_left _ hm))⟩
termination_by names => unseen (·.name) r.interfaces found * r.extensions + names.length
decreasing_by
  · simp
  · have hseen := Nat.mul_le_mul_right r.extensions
      (unseen_le_of_subset (·.name) r.interfaces (List.subset_append_left found [n]))
    simp only [List.length_cons]
    omega
  · have hsub : n :: found ⊆ found ++ [n] := by simp
    have hlt := Nat.lt_of_le_of_lt (unseen_le_of_subset (·.name) r.interfaces hsub)
      (unseen_interfaces_lt _h ‹¬found.contains n = true›)
    have hsearch := search_lt 0 hlt (length_parents_le (interface?_mem _h))
    simp only [List.length_cons]
    omega
  · have hsub : found ⊆ above.1 := fun _ hm => above.2 (List.mem_append_left _ hm)
    have hseen := Nat.mul_le_mul_right r.extensions (unseen_le_of_subset (·.name) r.interfaces hsub)
    exact Nat.lt_succ_of_le (Nat.add_le_add_right hseen rest.length)

/-- The interfaces that a class lists and all that these extend, each before those it extends. -/
def declaredInterfaces (r : Registry) (cls : String) : Except Fault (List String) := do
  return r.collect [] (← r.requireClass cls).interfaces

/-- Whether a class or one of its ancestors is as asked; those in `visited` are not asked again. -/
def anyAncestor (r : Registry) (asked : ClassEntry → Bool) (visited : List String) (cls : String) : Bool :=
  match _h : r.class? cls with
  | none => false
  | some c =>
    if visited.contains c.name then false
    else if asked c then true
    else match c.parent with
      | none => false
      | some p => r.anyAncestor asked (c.name :: visited) p
termination_by unseen (·.name) r.classes visited
decreasing_by
  have hs : visited.contains c.name = false := by simpa using ‹¬visited.contains c.name = true›
  exact unseen_cons_lt (class?_mem _h) hs

/-- Whether a class or one of its ancestors has an interface. -/
def implements (r : Registry) (cls interface : String) : Bool :=
  r.anyAncestor (fun c => (r.collect [] c.interfaces).1.contains interface) [] cls

/-- The classes that have an interface. -/
def implementing (r : Registry) (interface : String) : List String :=
  (r.classes.map (·.name)).filter (r.implements · interface)

/-! ## Constants -/

/-- How often a class or an interface names what stands above it. -/
def upwardLinks (r : Registry) : Nat :=
  (r.classes.flatMap fun c => c.interfaces.reverse ++ c.parent.toList).length + r.extensions

theorem length_above_le {r : Registry} {c : ClassEntry} (h : c ∈ r.classes) :
    (c.interfaces.reverse ++ c.parent.toList).length ≤ r.upwardLinks := by
  obtain ⟨before, behind, heq⟩ := List.append_of_mem h
  simp [upwardLinks, heq]
  omega

/-- Whether a pending name, or one above it, declares a constant. What stands above a class or an
interface is asked next, the last that it names first. -/
def constantAbove (r : Registry) (constant : String) (visited : List String) : List String → Bool
  | [] => false
  | n :: rest =>
    if visited.contains n then r.constantAbove constant visited rest
    else match _hc : r.class? n with
      | some c =>
        if (c.constants.lookup constant).isSome then true
        else r.constantAbove constant (n :: visited) (c.interfaces.reverse ++ c.parent.toList ++ rest)
      | none => match _hi : r.interface? n with
        | some i =>
          if (i.constants.lookup constant).isSome then true
          else r.constantAbove constant (n :: visited) (i.parents.reverse ++ rest)
        | none => r.constantAbove constant (n :: visited) rest
termination_by pending =>
  (unseen (·.name) r.classes visited + unseen (·.name) r.interfaces visited) * r.upwardLinks + pending.length
decreasing_by
  all_goals
    have hclasses := unseen_cons_le (·.name) r.classes visited n
    have hinterfaces := unseen_cons_le (·.name) r.interfaces visited n
  · simp
  · have hlt := unseen_classes_lt _hc ‹¬visited.contains n = true›
    rw [List.length_append, List.length_cons]
    exact search_lt _ (Nat.add_lt_add_of_lt_of_le hlt hinterfaces) (length_above_le (class?_mem _hc))
  · have hlt := unseen_interfaces_lt _hi ‹¬visited.contains n = true›
    have habove : i.parents.length ≤ r.upwardLinks :=
      Nat.le_trans (length_parents_le (interface?_mem _hi)) (Nat.le_add_left ..)
    rw [List.length_append, List.length_reverse, List.length_cons]
    exact search_lt _ (Nat.add_lt_add_of_le_of_lt hclasses hlt) habove
  · have hseen := Nat.mul_le_mul_right r.upwardLinks (Nat.add_le_add hclasses hinterfaces)
    simp only [List.length_cons]
    omega

/-- Whether a class or interface has a constant, of its own or inherited. -/
def hasConstant (r : Registry) (owner constant : String) : Bool := r.constantAbove constant [] [owner]

end Registry

end ClassScript
