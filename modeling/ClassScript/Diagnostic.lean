import ClassScript.Text.Position
/-!
# Diagnostics

A failed compilation is reported as one diagnostic: what kind of failure it is, a message, where it
arose and hints. Each kind has a code, a label and the guarantee that rejecting it upholds.
-/

namespace ClassScript

namespace Diagnostic

inductive Kind where
  | parse
  | unsupported
  | unknownIdentifier
  | duplicateDefinition
  | unknownDependency
  | entryPoint
  | scriptDependency
  | invalidArgument
  | io
  | internal
deriving DecidableEq, Repr, Inhabited

namespace Kind

def code : Kind → String
  | parse => "PJ-ERR-PARSE"
  | unsupported => "PJ-ERR-UNSUPPORTED"
  | unknownIdentifier => "PJ-ERR-UNKNOWN-IDENTIFIER"
  | duplicateDefinition => "PJ-ERR-DUPLICATE-DEFINITION"
  | unknownDependency => "PJ-ERR-UNKNOWN-DEPENDENCY"
  | entryPoint => "PJ-ERR-ENTRY-POINT"
  | scriptDependency => "PJ-ERR-SCRIPT-DEPENDENCY"
  | invalidArgument => "PJ-ERR-INVALID-ARGUMENT"
  | io => "PJ-ERR-IO"
  | internal => "PJ-ERR-INTERNAL"

def label : Kind → String
  | parse => "PARSE_ERROR"
  | unsupported => "UNSUPPORTED_CONSTRUCT"
  | unknownIdentifier => "UNKNOWN_IDENTIFIER"
  | duplicateDefinition => "DUPLICATE_DEFINITION"
  | unknownDependency => "UNKNOWN_DEPENDENCY"
  | entryPoint => "ENTRY_POINT"
  | scriptDependency => "SCRIPT_DEPENDENCY"
  | invalidArgument => "INVALID_ARGUMENT"
  | io => "IO_ERROR"
  | internal => "COMPILER_INVARIANT_VIOLATION"

/-- What holds of every program because failures of this kind are reported. -/
def guarantee : Kind → String
  | parse => "Only syntactically valid sources reach the rewrite pipeline."
  | unsupported => "Every construct that reaches code generation has a faithful translation."
  | unknownIdentifier => "Every referenced class, interface and member is known to the codebase."
  | duplicateDefinition => "Each fully-qualified name is defined exactly once per compilation."
  | unknownDependency => "Every dependency resolves to a stub, a source file or the runtime prelude."
  | entryPoint => "Exactly one class implements the script interface."
  | scriptDependency => "Script constructors only receive runtime API objects."
  | invalidArgument => "Target AST nodes are well-formed by construction."
  | io => "Sources are read completely before compilation."
  | internal => "The emitted program is valid JavaScript."

end Kind

end Diagnostic

structure Diagnostic where
  kind : Diagnostic.Kind
  message : String
  file : String := ""
  pos : Position := .unknown
  hints : List String := []
deriving DecidableEq, Repr, Inhabited

namespace Diagnostic

/-- The diagnostic at a position. -/
def placed (d : Diagnostic) (p : Position) : Diagnostic := { d with pos := p }

/-- The diagnostic at a position, unless it already has one. -/
def orPlaced (d : Diagnostic) (p : Position) : Diagnostic :=
  if d.pos.line = 0 then d.placed p else d

/-- The diagnostic in a file, unless it already names one. -/
def inFile (d : Diagnostic) (file : String) : Diagnostic :=
  if d.file = "" then { d with file } else d

/-- The diagnostic with one more hint. -/
def hinted (d : Diagnostic) (hint : String) : Diagnostic := { d with hints := d.hints ++ [hint] }

/-- The diagnostic on one line. -/
def display (d : Diagnostic) : String :=
  d.file ++ ":" ++ toString d.pos.line ++ ":" ++ toString d.pos.column ++ ": [" ++ d.kind.code ++ "] "
    ++ d.message

@[simp] theorem kind_orPlaced (d : Diagnostic) (p : Position) : (d.orPlaced p).kind = d.kind := by
  unfold orPlaced; split <;> rfl

end Diagnostic

/-- What a stage gives: a value or the diagnostic that ends the compilation. -/
abbrev Result (α : Type) := Except Diagnostic α

end ClassScript
