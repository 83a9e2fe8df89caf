import ClassScript.Registry.Basic
/-!
# The visibility of members

A member of `$this` has the visibility of its declaration in the class or, if the class has none, in
the nearest ancestor that has one. A private member of an ancestor is out of reach, so the name is
free, and a free name is public.
-/

namespace ClassScript

namespace Registry

/-- The visibility of a member that the class declares; a property goes before a method. -/
def ClassEntry.own? (e : ClassEntry) (member : String) : Option Visibility :=
  (e.properties.lookup member).or (e.methods.lookup member)

/-- The visibility of a member in the ancestors of a class; those in `seen` were asked before. -/
def inherited? (r : Registry) (member : String) (seen : List String) (e : ClassEntry) :
    Except Fault (Option Visibility) :=
  match e.parent with
  | none => .ok none
  | some p =>
    if seen.contains p then .error (.cycle p)
    else match _h : r.class? p with
      | none => .error (.unknownClass p)
      | some e => match ClassEntry.own? e member with
        | some .priv => .ok none
        | some v => .ok (some v)
        | none => r.inherited? member (p :: seen) e
termination_by unseen (·.name) r.classes seen
decreasing_by
  have hs : seen.contains p = false := by simpa using ‹¬seen.contains p = true›
  have hn := class?_name _h
  subst hn
  exact unseen_cons_lt (class?_mem _h) hs

/-- The visibility of a member of `$this` in a class, if the class or an ancestor has it. -/
def visibility? (r : Registry) (cls member : String) : Except Fault (Option Visibility) := do
  let e ← r.requireClass cls
  match ClassEntry.own? e member with
  | some v => return some v
  | none => r.inherited? member [] e

/-- The visibility of a member of `$this`, from the memo if it is there. -/
def visibility (cls member : String) : Query Visibility := do
  let r ← getThe Registry
  match r.memo.lookup (cls, member) with
  | some v => return v
  | none => match r.visibility? cls member with
    | .error fault => throw fault.diagnostic
    | .ok found =>
      let v := found.getD .pub
      set { r with memo := ((cls, member), v) :: r.memo }
      return v

end Registry

end ClassScript
