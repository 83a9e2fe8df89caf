import ClassScript.Text.Word
/-!
# Paths

A path is a text whose pieces are separated by slashes. Empty pieces count for nothing, nor does a
single dot, except at the start of a relative path. No operation here looks at a file.
-/

namespace ClassScript

structure Path where
  text : String
deriving DecidableEq, Repr, Inhabited

namespace Path

/-- The texts between slashes; the first is empty if the path is absolute. -/
def pieces (p : Path) : List String := (segments '/' p.text.toList).map String.ofList

def ofPieces (ps : List String) : Path := ⟨"/".intercalate ps⟩

/-- One more piece below a path; an absolute one stands for itself. -/
def join (p : Path) (piece : String) : Path :=
  if piece.toList.head? == some '/' then ⟨piece⟩
  else if p.text.isEmpty || p.text.toList.getLast? == some '/' then ⟨p.text ++ piece⟩
  else ⟨p.text ++ "/" ++ piece⟩

/-- The pieces before the last one that counts, and that one. -/
def splitLast? (atStart : Bool) : List String → Option (List String × String)
  | [] => none
  | s :: rest => match splitLast? false rest with
    | some (before, last) => some (s :: before, last)
    | none => if s = "" ∨ s = "." ∧ !atStart then none else some ([], s)

/-- The path without what follows its last piece that counts. -/
def trimmed (ps : List String) : Path :=
  match splitLast? true ps with
  | some (before, last) => ofPieces (before ++ [last])
  | none => if ps.isEmpty then ⟨""⟩ else ⟨"/"⟩

/-- The path without its last piece; the root and the empty path have none. -/
def parent? (p : Path) : Option Path :=
  (splitLast? true p.pieces).map fun (before, _) => trimmed before

/-- The name of a file without its extension. A dot at the front starts no extension. -/
def stem (name : String) : String :=
  match name.toList.reverse.dropWhile (· != '.') with
  | '.' :: c :: before => String.ofList (c :: before).reverse
  | _ => name

/-- The path with another extension, which has no slash, on its last piece; an empty one leaves it
without. -/
def withExtension (p : Path) (extension : String) : Path :=
  match splitLast? true p.pieces with
  | none => p
  | some (before, last) =>
    if last = "." ∨ last = ".." then p
    else
      let ending := if extension.isEmpty then "" else "." ++ extension
      ofPieces (before ++ [stem last ++ ending])

end Path

end ClassScript
