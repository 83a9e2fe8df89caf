import ClassScript.ScriptApi
/-!
# Annotations

What a file says about itself: the visibility of its members, which assignments declare a variable,
and the script APIs of its script classes.
-/

namespace ClassScript

namespace Annotate

/-! ## Visibility of declared members

A member that is declared without a visibility is public. Classes that are declared inside of other
classes are left as they are. -/

/-- The visibility of a member: the one it has, else the declared one, else public. -/
def stamped (m : Modifiers) (resolved : Option Visibility) : Option Visibility :=
  resolved.or (some (m.visibility.getD .pub))

def stampMember : Member → Member
  | .property d => .property { d with resolved := stamped d.modifiers d.resolved }
  | .const d => .const { d with resolved := stamped d.modifiers d.resolved }
  | .method d => .method { d with resolved := stamped d.modifiers d.resolved }
  | .traitUse ns => .traitUse ns

theorem property?_stampMember (m : Member) : (stampMember m).property?.isNone = m.property?.isNone := by
  cases m <;> rfl

/-- The pass that resolves the visibility of declared members. -/
def visibility : Pass Id where
  cls c _ := pure { c with members := c.members.map stampMember }
  iface i _ := pure { i with members := i.members.map stampMember }

/-! ## First assignments

The first assignment to a variable of a function declares it. Parameters, captured variables and
the variables of catch clauses need no declaration. An assignment that is marked already keeps its
mark, but it counts. -/

/-- The variables that need no declaration any more in the function around a place; `none` outside
of functions. -/
abbrev Known := Option (List String)

/-- Runs an action in a function that starts with the given variables. -/
def inFunction {α : Type} (start : List String) (act : StateM Known α) : StateM Known α := do
  let outer ← get
  set (some start)
  let a ← act
  set outer
  return a

/-- The variable that an assignment to this target declares if it is the first. -/
def declarable? : Expr → Option String
  | .variable _ n false => if n == "this" then none else some n
  | _ => none

/-- Marks an assignment. -/
def markAssignment (e : Expr) : StateM Known Expr := do
  match e, ← get with
  | .assign p t v d, some known => match declarable? t with
    | some n =>
      set (some (n :: known))
      return .assign p t v (d.or (some (!known.contains n)))
    | none => return e
  | e, _ => return e

/-- The pass that marks the assignments that declare a variable. -/
def declarations : Pass (StateM Known) where
  expr _ below := do markAssignment (← below)
  clause c below := do
    modify (·.map (c.var :: ·))
    below
  closure c below := inFunction (c.params.map (·.name) ++ c.captures.map (·.name)) below
  method m below := inFunction (m.params.map (·.name)) below

end Annotate

/-- The file with the visibility of its members resolved. -/
def SourceFile.stamp (f : SourceFile) : SourceFile := (f.through Annotate.visibility : Id _)

def SourceFile.annotate (scriptInterface : String) (f : SourceFile) : Result SourceFile :=
  let marked := ((f.stamp.through Annotate.declarations).run none).run.1
  marked.through (Annotate.scriptApis scriptInterface)

end ClassScript
