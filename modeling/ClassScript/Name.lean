import ClassScript.Text.Word
/-!
# Names

A name is a list of segments divided by backslashes. A leading backslash makes it fully qualified.
-/

namespace ClassScript

inductive NameKind where
  | unqualified
  | qualified
  | fullyQualified
deriving DecidableEq, Repr, Inhabited

structure Name where
  parts : List String
  kind : NameKind
deriving DecidableEq, Repr, Inhabited

namespace Name

def separator : Char := '\\'

/-- The segments of a spelled name; empty ones do not count. -/
def partsOf (raw : String) : List String :=
  ((segments separator raw.toList).filter (!·.isEmpty)).map String.ofList

/-- Reads `Foo`, `Foo\Bar` or `\Foo\Bar`. -/
def parse (raw : String) : Name :=
  let parts := partsOf raw
  if raw.toList.head? = some separator then ⟨parts, .fullyQualified⟩
  else if parts.length > 1 then ⟨parts, .qualified⟩
  else ⟨parts, .unqualified⟩

/-- The fully qualified name with the segments of `raw`. -/
def global (raw : String) : Name := ⟨partsOf raw, .fullyQualified⟩

/-- The segments with backslashes between them. -/
def joined (n : Name) : String := "\\".intercalate n.parts

def first (n : Name) : String := n.parts.head?.getD ""

def last (n : Name) : String := n.parts.getLast?.getD ""

/-- The name as it is spelled in a source text. -/
def display (n : Name) : String :=
  match n.kind with
  | .fullyQualified => "\\" ++ n.joined
  | _ => n.joined

/-- Names of types that no namespace can define. -/
def scalarTypes : List String :=
  ["string", "int", "float", "bool", "array", "callable", "mixed", "object", "iterable", "void", "null"]

/-- Whether the name, taken as a type, is one of the scalar types. -/
def isScalar (n : Name) : Bool :=
  n.kind != .fullyQualified && n.parts.length == 1 && scalarTypes.contains (lower n.first)

end Name

end ClassScript
