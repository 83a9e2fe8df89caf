import ClassScript.Emit.Identifier
import ClassScript.NamespaceTree
import ClassScript.Program.Prelude
import ClassScript.Script.Print
import ClassScript.ScriptApi
import ClassScript.Tree.Basic
/-!
# Programs

An emitted program is one text: the prelude, the namespaces, the scalar types, the interfaces, the
classes, and at last the call that starts it. Its sections are separated by empty lines.
-/

namespace ClassScript

structure Program where
  text : String
  entryClass : String
  /-- The interfaces, then the classes, in the order they are emitted. -/
  declarations : List String
deriving Inhabited

namespace Program

open Script Emit

/-- What a program is assembled from. -/
structure Parts where
  namespaces : NamespaceTree
  interfaces : List (String × List Node)
  classes : List (String × Node)
  entryClass : String
  /-- The script APIs that the constructor of the entry class takes, in order. -/
  scriptApis : List String
  entryMethod : String

/-- The objects that box the scalar types. -/
def boxes : List (String × String) :=
  [("string", "String"), ("int", "Number"), ("float", "Number"), ("bool", "Boolean"),
    ("array", "PhpArray")]

mutual

/-- Nested objects for nested namespaces. -/
def namespaceObject : NamespaceTree → Built Node
  | .node children => do object (← namespaceFields children)

def namespaceFields : List (String × NamespaceTree) → Built (List Field)
  | [] => return []
  | (segment, child) :: rest => do
    let value ← namespaceObject child
    return ⟨segment, value⟩ :: (← namespaceFields rest)

end

/-- The declaration of the root of all namespaces. -/
def rootDeclaration (t : NamespaceTree) : Built Node := do
  declare rootName (some (← namespaceObject t))

def boxDeclaration : Built Node := do
  let fields ← boxes.mapM fun (type, box) => return (⟨type, ← ident box⟩ : Field)
  declare "__boxed" (some (← object fields))

/-- A new object of the class that implements a script API. -/
def apiInstance (api : String) : Result Node :=
  match ScriptApi.implementation? api with
  | some cls => do
    let path ← classPath cls
    methodCall path constructorName []
  | none => .error
      { kind := .scriptDependency, message := "no runtime implementation for " ++ api }

/-- The call that starts the program. -/
def entryCall (parts : Parts) : Result Node := do
  let args ← parts.scriptApis.mapM apiInstance
  let path ← classPath parts.entryClass
  let entry ← methodCall path constructorName args
  statement (← methodCall entry parts.entryMethod [])

/-- The sections behind the prelude. -/
def sections (parts : Parts) : Result (List String) := do
  let root ← (← rootDeclaration parts.namespaces).print
  let boxed ← (← boxDeclaration).print
  let interfaces ← (parts.interfaces.flatMap (·.2)).mapM fun n => (n.print : Result String)
  let classes ← parts.classes.mapM fun c => (c.2.print : Result String)
  let entry ← (← entryCall parts).print
  return root :: boxed :: (interfaces ++ classes ++ [entry])

/-- The prelude without the blank lines at its end. -/
def preludeSection : String :=
  String.ofList (prelude.toList.reverse.dropWhile Char.isWhitespace).reverse

/-- The whole program. -/
def assemble (parts : Parts) : Result Program := do
  let text := "\n\n".intercalate (preludeSection :: (← sections parts)) ++ "\n"
  return {
    text
    entryClass := parts.entryClass
    declarations := parts.interfaces.map (·.1) ++ parts.classes.map (·.1) }

end Program

end ClassScript
