import ClassScript.Registry.Hierarchy
/-!
# Orders of emission

Classes are ordered so that each stands behind its parent, and interfaces so that each stands behind
those it extends. Otherwise the order in which they were added is kept.
-/

namespace ClassScript

namespace Registry

/-! ## Classes -/

/-- The class and its ancestors up to those already `placed`, the oldest first. The classes in `below`
are those that led here. -/
def ancestry (r : Registry) (placed below : List String) (c : ClassEntry) (_hc : c ∈ r.classes) :
    Result (List String) :=
  if placed.contains c.name then .ok []
  else if below.contains c.name then .error (Fault.cycle c.name).diagnostic
  else match c.parent with
    | none => .ok [c.name]
    | some p => match h : r.class? p with
      | none => .error ((Fault.unknownClass p).diagnostic.hinted (c.name ++ " extends " ++ p))
      | some e => do
        let older ← r.ancestry placed (c.name :: below) e (class?_mem h)
        return older ++ [c.name]
termination_by unseen (·.name) r.classes below
decreasing_by
  have hs : below.contains c.name = false := by simpa using ‹¬below.contains c.name = true›
  exact unseen_cons_lt _hc hs

/-- The names of the classes, each behind its parent. -/
def classOrder (r : Registry) : Result (List String) :=
  r.classes.attach.foldlM (fun placed c => do
    return placed ++ (← r.ancestry placed [] c.1 c.2)) []

/-! ## Interfaces -/

/-- Places interfaces behind those they extend. Those in `below` led here; those already `placed`
come first. -/
def placeInterfaces (r : Registry) (below placed : List String) : List String →
    Except Fault (List String)
  | [] => .ok placed
  | n :: rest =>
    if placed.contains n then r.placeInterfaces below placed rest
    else if below.contains n then .error (.cycle n)
    else match _h : r.interface? n with
      | none => .error (.unknownInterface n)
      | some e => do
        let placed ← r.placeInterfaces (n :: below) placed e.parents
        r.placeInterfaces below (placed ++ [n]) rest
termination_by names => unseen (·.name) r.interfaces below * r.extensions + names.length
decreasing_by
  · simp
  · have hlt := unseen_interfaces_lt _h ‹¬below.contains n = true›
    have hsearch := search_lt 0 hlt (length_parents_le (interface?_mem _h))
    simp only [List.length_cons]
    omega
  · simp

/-- The names of the interfaces, each behind those it extends. -/
def interfaceOrder (r : Registry) : Result (List String) :=
  (r.placeInterfaces [] [] (r.interfaces.map (·.name))).mapError Fault.diagnostic

end Registry

end ClassScript
