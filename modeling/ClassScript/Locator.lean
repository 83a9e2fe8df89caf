import ClassScript.Emit.Builtin
import ClassScript.Emit.Reference
import ClassScript.Library
import ClassScript.Options
/-!
# Locators

A locator tells the file that declares a name. Locators are chained: each answers for the names it
knows and leaves the others to the next one.
-/

namespace ClassScript

structure Locator where
  /-- Whether a name belongs to the library. -/
  isInternal : String → Bool
  /-- The file that declares a name; `none` if the name needs no file. -/
  file? : String → Result (Option Path)

namespace Locator

inductive Fault where
  | unknown (name : String)
  | missingStub (name : String) (path : Path)
  /-- No path can be given an extension that has a separator. -/
  | separatedExtension (extension : String)
deriving DecidableEq, Repr

def Fault.diagnostic : Fault → Diagnostic
  | unknown name =>
    { kind := .unknownDependency
      message := "cannot locate a definition for " ++ name
      hints := ["check the source roots and the file naming convention"] }
  | missingStub name path =>
    { kind := .unknownDependency
      message := "stub for " ++ name ++ " is missing at " ++ path.text }
  | separatedExtension extension =>
    { kind := .internal
      message := "extension cannot contain path separators: \"" ++ extension ++ "\"" }

/-- The end of a chain, which knows no name. -/
def nowhere : Locator where
  isInternal _ := false
  file? name := .error (Fault.unknown name).diagnostic

/-! ## Sources -/

/-- A namespace without the separators around it. -/
def trimmedNamespace (ns : String) : String :=
  let trimmed := (ns.toList.dropWhile (· == '\\')).reverse.dropWhile (· == '\\')
  String.ofList trimmed.reverse

/-- The roots with their namespaces trimmed, the longest first. -/
def sortedRoots (roots : List (String × Path)) : List (String × Path) :=
  (roots.map fun (ns, dir) => (trimmedNamespace ns, dir)).mergeSort
    fun a b => b.1.utf8ByteSize ≤ a.1.utf8ByteSize

/-- What a name is below a namespace. All names are below the empty one. -/
def below? (ns name : String) : Option (List Char) :=
  if ns.isEmpty then some name.toList else (ns ++ "\\").toList.isPrefixOf? name.toList

/-- Where the file of a name would be below a root. -/
def candidate? (extension name : String) (root : String × Path) : Option Path :=
  (below? root.1 name).map fun relative =>
    let pieces := (segments '\\' relative).map String.ofList
    (pieces.foldl Path.join root.2).withExtension extension

/-- The extension without the dots before it. -/
def trimmedExtension (extension : String) : String :=
  String.ofList (extension.toList.dropWhile (· == '.'))

/-- The places where the file of a name may be, in the order they are tried. -/
def candidates (roots : List (String × Path)) (extension name : String) : List Path :=
  (sortedRoots roots).filterMap (candidate? (trimmedExtension extension) name)

/-- The sources below the given roots, a file for each name. -/
def sources (files : FileSystem) (roots : List (String × Path)) (extension : String)
    (next : Locator) : Locator where
  isInternal := next.isInternal
  file? name :=
    let places := candidates roots extension name
    if !places.isEmpty && extension.toList.contains '/' then
      .error (Fault.separatedExtension (trimmedExtension extension)).diagnostic
    else match places.find? files.isFile with
      | some p => .ok (some p)
      | none => next.file? name

/-! ## Names without sources -/

/-- Whether a name is that of a host object. -/
def isNative (name : String) : Bool :=
  match segments '\\' name.toList with
  | first :: _ :: _ => first == Emit.nativeNamespace.toList
  | _ => false

/-- The objects of the host. -/
def native (next : Locator) : Locator where
  isInternal name := isNative name || next.isInternal name
  file? name := if isNative name then .ok none else next.file? name

/-- The library and the builtin functions and constants. -/
def library (files : FileSystem) (root : Path) (next : Locator) : Locator where
  isInternal name :=
    (Library.file? root name).isSome || Emit.Builtin.inPrelude name || Emit.Builtin.isBuiltin name
      || next.isInternal name
  file? name := match Library.file? root name with
    | some p => if files.isFile p then .ok (some p) else .error (Fault.missingStub name p).diagnostic
    | none =>
      if Emit.Builtin.inPrelude name || Emit.Builtin.isBuiltin name then .ok none
      else next.file? name

/-- The library, then the host, then the sources. -/
def standard (files : FileSystem) (o : Options) : Locator :=
  library files o.stubRoot
    (native (sources files o.sourceRoots.entries o.fileExtension nowhere))

end Locator

end ClassScript
