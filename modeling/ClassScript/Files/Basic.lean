import ClassScript.Diagnostic
import ClassScript.Files.Path
/-!
# File systems

A file system lists files and directories by their locations. Whatever lies above a listed location
is a directory as well. Relative paths start at the working directory, except for those into the
library, whose files are at hand everywhere.
-/

namespace ClassScript

/-- The names from the root down to a file or directory. -/
abbrev Location := List String

/-- The directory of the library's own files. -/
def libraryRoot : String := "<stubs>"

/-- Why a file cannot be read or written. -/
inductive FileFault where
  | missing
  | notDirectory
  | isDirectory
  | notText
  | denied
deriving DecidableEq, Repr

namespace FileFault

def message : FileFault → String
  | missing => "No such file or directory (os error 2)"
  | notDirectory => "Not a directory (os error 20)"
  | isDirectory => "Is a directory (os error 21)"
  | notText => "stream did not contain valid UTF-8"
  | denied => "Permission denied (os error 13)"

/-- The diagnostic for a fault at a path. -/
def diagnostic (f : FileFault) (p : Path) : Diagnostic :=
  { kind := .io, message := f.message, file := p.text }

end FileFault

inductive FileEntry where
  | directory
  | text (content : String)
  /-- A file whose bytes are no text. -/
  | binary
  /-- A file that may not be read. -/
  | locked
deriving DecidableEq, Repr, Inhabited

namespace FileEntry

/-- The file with these bytes, which are a text if they are valid UTF-8. -/
def ofBytes (bytes : ByteArray) : FileEntry :=
  match String.fromUTF8? bytes with
  | some content => text content
  | none => binary

def isFile : FileEntry → Bool
  | directory => false
  | text _ | binary | locked => true

def content : FileEntry → Except FileFault String
  | directory => .error .isDirectory
  | text content => .ok content
  | binary => .error .notText
  | locked => .error .denied

end FileEntry

structure FileSystem where
  workingDirectory : Location := []
  entries : List (Location × FileEntry) := []
deriving Inhabited

namespace FileSystem

/-- What is at a location. -/
def entry? (fs : FileSystem) (l : Location) : Option FileEntry :=
  match fs.entries.lookup l with
  | some e => some e
  | none =>
    if l.isPrefixOf fs.workingDirectory || fs.entries.any (l.isPrefixOf ·.1) then some .directory
    else none

/-- Follows the pieces of a path from a location. Only a directory can be passed. -/
def walk (fs : FileSystem) (l : Location) : List String → Except FileFault Location
  | [] => .ok l
  | s :: rest => match fs.entry? l with
    | none => .error .missing
    | some .directory =>
      if s = "" ∨ s = "." then fs.walk l rest
      else if s = ".." then fs.walk l.dropLast rest
      else fs.walk (l ++ [s]) rest
    | some _ => .error .notDirectory

/-- Where a path starts, and the pieces that lead on from there. -/
def start (fs : FileSystem) (p : Path) : Location × List String :=
  match p.pieces with
  | s :: rest =>
    if s = "" then ([], rest)
    else if s = libraryRoot then ([], s :: rest)
    else (fs.workingDirectory, s :: rest)
  | [] => (fs.workingDirectory, [])

/-- The location of a path. There need not be anything at it, but there is above it. -/
def resolve (fs : FileSystem) (p : Path) : Except FileFault Location :=
  if p.text.isEmpty then .error .missing
  else
    let (l, ps) := fs.start p
    fs.walk l ps

/-- What a path leads to, with its location. -/
def find (fs : FileSystem) (p : Path) : Except FileFault (Location × FileEntry) := do
  let l ← fs.resolve p
  match fs.entry? l with
  | some e => return (l, e)
  | none => throw .missing

def isFile (fs : FileSystem) (p : Path) : Bool :=
  match fs.find p with
  | .ok (_, e) => e.isFile
  | .error _ => false

/-- The text of a file. -/
def read (fs : FileSystem) (p : Path) : Except FileFault String := do
  (← fs.find p).2.content

/-- The file system with an entry at a location, in place of the one that is there. -/
def put (fs : FileSystem) (l : Location) (e : FileEntry) : FileSystem :=
  { fs with entries := (l, e) :: fs.entries.filter (·.1 != l) }

/-- The location that the pieces of a path spell from another one, whether it is there or not. -/
def spelled (l : Location) : List String → Location
  | [] => l
  | s :: rest =>
    if s = "" ∨ s = "." then spelled l rest
    else if s = ".." then spelled l.dropLast rest
    else spelled (l ++ [s]) rest

/-- The file system with an entry at a path. -/
def putAt (fs : FileSystem) (p : Path) (e : FileEntry) : FileSystem :=
  let (l, ps) := fs.start p
  fs.put (spelled l ps) e

/-- Writes a text to a file, which need not be there yet, but its directory has to. A path that ends
in a slash is never that of a file. -/
def write (fs : FileSystem) (p : Path) (content : String) : Except FileFault FileSystem := do
  if p.text.isEmpty then throw .missing
  let (start, ps) := fs.start p
  let l ← fs.walk start (ps.reverse.dropWhile (· == "")).reverse
  if fs.entry? l == some .directory || ps.getLast? == some "" then throw .isDirectory
  return fs.put l (.text content)

end FileSystem

end ClassScript
