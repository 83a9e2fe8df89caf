import ClassScript.Compile
import ClassScript.Json.Print
/-!
# The command line

`compile FILE` compiles a program and prints it or writes it to a file. A failed compilation is
reported on the error stream, as lines of text or as JSON.
-/

namespace ClassScript

/-- What the command line asks for. -/
structure Command where
  file : Path
  config : Option Path := none
  /-- Whether to leave the emitted program unchecked. -/
  noVerify : Bool := false
  output : Option Path := none
  jsonErrors : Bool := false
deriving DecidableEq, Repr

namespace Command

/-! ## Arguments -/

/-- The parts of a command line as far as they are read. -/
structure Arguments where
  file : Option String := none
  config : Option String := none
  noVerify : Bool := false
  output : Option String := none
  jsonErrors : Bool := false

namespace Arguments

/-- Sets the file, once. -/
def withFile? (a : Arguments) (value : String) : Option Arguments :=
  if a.file.isSome || value.isEmpty then none else some { a with file := some value }

/-- Sets an option that has a value, once. -/
def withValue? (a : Arguments) (option value : String) : Option Arguments :=
  if value.isEmpty then none
  else match option with
    | "config" => if a.config.isSome then none else some { a with config := some value }
    | "output" => if a.output.isSome then none else some { a with output := some value }
    | _ => none

/-- Sets an option that has no value, once. -/
def withFlag? (a : Arguments) : String → Option Arguments
  | "no-verify" => if a.noVerify then none else some { a with noVerify := true }
  | "json-errors" => if a.jsonErrors then none else some { a with jsonErrors := true }
  | _ => none

end Arguments

/-- An option as it is spelled. -/
inductive Spelling where
  /-- An option with its value behind it or in the next argument. -/
  | valued (option : String) (value : Option String)
  | flag (option : String)
  | file (value : String)
  /-- What follows is no option. -/
  | rest

/-- Splits at the first equality sign. -/
def splitValue (cs : List Char) : String × Option String :=
  let name := String.ofList (cs.takeWhile (· != '='))
  match cs.dropWhile (· != '=') with
  | '=' :: value => (name, some (String.ofList value))
  | _ => (name, none)

/-- The option under a letter. -/
def short? : Char → Option String
  | 'c' => some "config"
  | 'o' => some "output"
  | _ => none

/-- What an argument stands for; `none` if it is no known option. -/
def spelling? (arg : String) : Option Spelling :=
  match arg.toList with
  | ['-', '-'] => some .rest
  | '-' :: '-' :: cs => match splitValue cs with
    | ("config", value) => some (.valued "config" value)
    | ("output", value) => some (.valued "output" value)
    | (name, none) => some (.flag name)
    | (_, some _) => none
  | '-' :: c :: cs => (short? c).map fun option => match cs with
    | [] => .valued option none
    | '=' :: value => .valued option (some (String.ofList value))
    | value => .valued option (some (String.ofList value))
  | _ => some (.file arg)

/-- Reads arguments; the ones behind `--` are files. -/
def readArguments? (a : Arguments) : List String → Option Arguments
  | [] => some a
  | arg :: rest => match spelling? arg with
    | none => none
    | some .rest => rest.foldlM Arguments.withFile? a
    | some (.file value) => do readArguments? (← a.withFile? value) rest
    | some (.flag option) => do readArguments? (← a.withFlag? option) rest
    | some (.valued option (some value)) => do readArguments? (← a.withValue? option value) rest
    | some (.valued option none) => match rest with
      | value :: rest => do readArguments? (← a.withValue? option value) rest
      | [] => none

/-- The command of a command line; `none` if it is none. -/
def parse? : List String → Option Command
  | "compile" :: args => do
    let a ← readArguments? {} args
    return {
      file := ⟨← a.file⟩
      config := a.config.map Path.mk
      noVerify := a.noVerify
      output := a.output.map Path.mk
      jsonErrors := a.jsonErrors }
  | _ => none

/-! ## Reports -/

/-- A diagnostic as JSON. -/
def diagnosticJson (d : Diagnostic) : Json :=
  let field (key : String) (value : Json) : JsonField := ⟨some key, value⟩
  let text (s : String) : Json := .string (some s)
  .object
    [field "code" (text d.kind.code), field "errorType" (text d.kind.label),
      field "message" (text d.message), field "guarantee" (text d.kind.guarantee),
      field "file" (text d.file), field "line" (.number (toString d.pos.line)),
      field "column" (.number (toString d.pos.column)),
      field "hints" (.array (d.hints.map text))]

/-- What is written to the error stream for a diagnostic. -/
def report (c : Command) (d : Diagnostic) : String :=
  if c.jsonErrors then (diagnosticJson d).print ++ "\n"
  else "error: " ++ d.display ++ "\n" ++ String.join (d.hints.map fun h => "  hint: " ++ h ++ "\n")

/-! ## Running -/

/-- What a command leaves behind. -/
structure Outcome where
  code : UInt8
  stdout : String := ""
  stderr : String := ""

def failed (c : Command) (d : Diagnostic) : Outcome := { code := 1, stderr := c.report d }

/-- The options of a command. -/
def options (c : Command) (files : FileSystem) : Result Options := do
  let o ← match c.config with
    | some p => Options.read files p
    | none => pure {}
  return if c.noVerify then { o with verifyOutput := false } else o

/-- The program that a command compiles. -/
def program (c : Command) (files : FileSystem) : Result Program := do
  compile files (← c.options files) c.file

/-- Hands over a compiled program: prints it, or writes it by the given action. -/
def deliver {m : Type → Type} [Monad m] (c : Command)
    (write : Path → String → m (Except FileFault Unit)) : Result Program → m Outcome
  | .error d => return c.failed d
  | .ok p => match c.output with
    | none => return { code := 0, stdout := p.text }
    | some path => do
      match ← write path p.text with
      | .ok () => return { code := 0 }
      | .error fault => return c.failed (fault.diagnostic path)

/-- Runs a command on a file system. -/
def run (c : Command) (files : FileSystem) : Outcome × FileSystem :=
  (c.deliver (m := StateM FileSystem) (fun path text => do
    match (← get).write path text with
    | .ok files => do
      set files
      return .ok ()
    | .error fault => return .error fault) (c.program files)).run files

/-- The files that may decide what a command does, as far as a text tells: those of the names that it
depends on. -/
def wanted (o : Options) (path : Path) (text : String) : List Path :=
  let prepared := SourceFile.parse path.text text >>= SourceFile.simplify .full o.scriptInterface
    >>= SourceFile.annotate o.scriptInterface
  match prepared with
  | .ok f => f.dependencies.flatMap fun name => (Library.file? o.stubRoot name).toList
      ++ Locator.candidates o.sourceRoots.entries o.fileExtension name
  | .error _ => []

end Command

end ClassScript
