import ClassScript.Diagnostic
import ClassScript.Tree.Pass
/-!
# Script APIs

A script class may ask for objects of the host in its constructor. It names them by interface, and
each interface has one class that implements it.

A class that lists the script interface gets its script APIs by its constructor, one for each
parameter, in their order. The parameters of its methods lose their types. Classes that are declared
inside of other classes are left as they are.
-/

namespace ClassScript.ScriptApi

/-- The interfaces a script may ask for, each with its implementation. -/
def table : List (String × String) :=
  [("Phpjs\\Api\\Console", "Phpjs\\Shim\\Console"),
    ("Phpjs\\Api\\Document", "Phpjs\\Shim\\Document")]

def implementation? (api : String) : Option String := table.lookup api

end ClassScript.ScriptApi

namespace ClassScript.Annotate

/-- A parameter of a script's constructor names no script API. -/
def foreignDependency (param cls : String) : Diagnostic :=
  { kind := .scriptDependency
    message := "script classes can only have dependencies from Phpjs\\Api"
    hints := ["parameter $" ++ param ++ " of " ++ cls] }

/-- The script API that a parameter of a script's constructor asks for. -/
def apiOf (c : Class) (p : Param) : Result String :=
  match (p.type.map (·.name.joined)).filter fun api => (ScriptApi.implementation? api).isSome with
  | some api => .ok api
  | none => .error ((foreignDependency p.name c.name).placed p.pos)

/-- The script APIs that the constructor of a script class asks for. -/
def apisOf (c : Class) : Result (List String) :=
  ((c.methods.filter Method.isConstructor).flatMap (·.params)).mapM (apiOf c)

def eraseTypes : Member → Member
  | .method d => .method { d with params := d.params.map ({ · with type := none }) }
  | m => m

/-- The pass that finds the script APIs of script classes. -/
def scriptApis (scriptInterface : String) : Pass Result where
  cls c _ :=
    if c.lists scriptInterface then do
      let apis ← apisOf c
      return { c with scriptApis := some apis, members := c.members.map eraseTypes }
    else return c

end ClassScript.Annotate
