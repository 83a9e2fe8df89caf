import ClassScript.Script.Build
/-!
# Names of the emitted program
-/

namespace ClassScript.Emit

open Script

/-- Words that the emitted language reserves, or whose meaning it fixes. -/
def languageWords : List String :=
  ["break", "case", "catch", "class", "const", "continue", "debugger", "default", "delete", "do",
    "else", "enum", "export", "extends", "false", "finally", "for", "function", "if", "implements",
    "import", "in", "instanceof", "interface", "let", "new", "null", "package", "private",
    "protected", "public", "return", "static", "super", "switch", "this", "throw", "true", "try",
    "typeof", "var", "void", "while", "with", "yield", "await", "arguments", "eval", "undefined",
    "NaN", "Infinity"]

/-- Names that emitted code uses on its own account. -/
def ownNames : List String :=
  ["root", "parent", "constants", "extend", "construct", "inherited", "createClass", "instance",
    "Math", "String", "Number", "Boolean", "Object", "Array", "PhpArray"]

/-- Whether a variable of this name could be mistaken for something else. -/
def isTaken (name : String) : Bool :=
  languageWords.contains name || ownNames.contains name || ['_', '_'].isPrefixOf name.toList

/-- The name that a source variable has in the emitted program. -/
def mangle (name : String) : String := if isTaken name then name ++ "$" else name

/-- The object that holds all namespaces. -/
def rootName : String := "root"

/-- The path of a declaration: `root.A.B` for `A\B`. -/
def classPath (qualified : String) : Built Node :=
  path (rootName :: ((segments '\\' qualified.toList).filter (!·.isEmpty)).map String.ofList)

end ClassScript.Emit
