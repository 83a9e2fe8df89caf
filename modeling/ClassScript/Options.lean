import ClassScript.Files.Basic
import ClassScript.Json.Read
/-!
# Options

How a program is to be compiled. Options are read from a JSON document: an object with some of the
options under their names, or an array of the first few of them in their order. What is left out has
its default. Other fields of an object do not count, but no option may be given twice.
-/

namespace ClassScript

structure Options where
  /-- The directories of the sources by namespace. -/
  sourceRoots : Dictionary Path := {}
  /-- The directory of the library. -/
  stubRoot : Path := ⟨libraryRoot⟩
  /-- The interface that tells the class a program starts from. -/
  scriptInterface : String := "Phpjs\\ScriptInterface"
  /-- The method a program starts with. -/
  entryMethod : String := "run"
  fileExtension : String := "php"
  /-- Whether whoever runs the program wants it checked first; what is emitted does not depend on it. -/
  verifyOutput : Bool := true
deriving Inhabited

namespace Options

/-- The names of the options in a document, in their order. -/
def names : List String :=
  ["sourceRoots", "stubRoot", "scriptInterface", "entryMethod", "fileExtension", "verifyOutput"]

/-- A table of paths; of several under one name, the last counts. -/
def pathTable? : Json → Option (Dictionary Path)
  | .object fields => fields.foldlM (fun table f => do
      return table.set (← f.key) ⟨← f.value.text?⟩) {}
  | _ => none

/-- The options with one of them changed; `none` if the value does not fit. -/
def set? (o : Options) (name : String) (value : Json) : Option Options :=
  match name with
  | "sourceRoots" => (pathTable? value).map fun v => { o with sourceRoots := v }
  | "stubRoot" => value.text?.map fun v => { o with stubRoot := ⟨v⟩ }
  | "scriptInterface" => value.text?.map fun v => { o with scriptInterface := v }
  | "entryMethod" => value.text?.map fun v => { o with entryMethod := v }
  | "fileExtension" => value.text?.map fun v => { o with fileExtension := v }
  | "verifyOutput" => value.bool?.map fun v => { o with verifyOutput := v }
  | _ => some o

/-- The options with those of the fields; the options in `given` were set before. -/
def setFields? (o : Options) (given : List String) : List JsonField → Option Options
  | [] => some o
  | f :: rest => do
    let name ← f.key
    if given.contains name then none
    let given := if names.contains name then name :: given else given
    (← o.set? name f.value).setFields? given rest

def ofJson? : Json → Option Options
  | .object fields => ({} : Options).setFields? [] fields
  | .array items =>
    if items.length > names.length then none
    else (names.zip items).foldlM (fun o (name, value) => o.set? name value) {}
  | _ => none

/-- The options of a document. -/
def parse (document : String) : Result Options :=
  match Json.parse? document >>= ofJson? with
  | some o => .ok o
  | none => .error { kind := .invalidArgument, message := "invalid options" }

/-- The options in a file. -/
def read (files : FileSystem) (p : Path) : Result Options := do
  let document ← (files.read p).mapError (·.diagnostic p)
  (parse document).mapError (·.inFile p.text)

/-- Without source roots, the sources are those beside the entry file. -/
def withEntry (o : Options) (entry : Path) : Options :=
  if o.sourceRoots.isEmpty then
    { o with sourceRoots := Dictionary.ofList [("", entry.parent?.getD ⟨"."⟩)] }
  else o

end Options

end ClassScript
