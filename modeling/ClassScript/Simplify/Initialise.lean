import ClassScript.Tree.Part
import ClassScript.Tree.Pass
/-!
# Initial values

A variable that a function mentions without ever giving it a value is null. The body starts with an
assignment of null to each such variable.

What an iteration callback mentions belongs to the function around it, its own parameters apart;
what it assigns is not defined by that. Of any other closure only the captured names count.
-/

namespace ClassScript.Simplify

/-- The variables that a part mentions and those that it gives a value, in source order. -/
structure Usage where
  mentions : List String := []
  defines : List String := []

namespace Usage

def append (a b : Usage) : Usage := ⟨a.mentions ++ b.mentions, a.defines ++ b.defines⟩

def concat (us : List Usage) : Usage := us.foldr append {}

/-- The usage of a part from those of its children. -/
def ofPart (p : Part) (below : List Usage) : Usage :=
  match p with
  | .expr (.variable _ name synthetic) =>
    if synthetic || name == "this" then {} else { mentions := [name] }
  | .expr (.assign _ (.variable _ name _) _ _) =>
    (concat (below.drop 1)).append ⟨[name], [name]⟩
  | .closure c =>
    if c.isIteration then
      let body := concat (below.drop c.params.length)
      { mentions := body.mentions.filter fun name => c.params.all (·.name != name) }
    else { mentions := c.captures.map (·.name) }
  | .clause c => (⟨[], [c.var]⟩ : Usage).append (concat below)
  | _ => concat below

end Usage

/-- What the statements of a body mention and define. -/
def usage (body : List Stmt) : Usage :=
  Usage.concat ((Part.stmts body).map (·.fold Usage.ofPart))

/-- The variables of a body that nothing gives a value, in the order they are mentioned first. -/
def undefinedIn (bound : List String) (body : List Stmt) : List String :=
  let u := usage body
  (firsts u.mentions).filter fun name => !(bound.contains name || u.defines.contains name)

/-- The body with null for what is undefined, at the position of its first statement. -/
def initialised (bound : List String) (body : List Stmt) : List Stmt :=
  let pos := (body.head?.map Stmt.pos).getD .unknown
  (undefinedIn bound body).map (fun name =>
    .expression (.assign pos (.var pos name) (.null pos) none)) ++ body

def initialisedMethod (m : Method) : Method :=
  { m with body := m.body.map (initialised (m.params.map (·.name))) }

def initialisedClosure (c : Closure) : Closure :=
  if c.isIteration then c
  else
    let bound := c.params.map (·.name) ++ c.captures.map (·.name)
    { c with body := initialised bound c.body }

/-- The pass that gives initial values. -/
def initialisers : Pass Id where
  method _ below := initialisedMethod below
  closure _ below := initialisedClosure below

end ClassScript.Simplify
