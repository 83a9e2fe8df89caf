/-!
# Positions

A position is a line and a column, both counted from one in numbers of 32 bits. Only a newline ends
a line, and columns count the bytes of the UTF-8 encoding. Line zero means that no position is known.

A position is known by going through the text, or from a byte offset by searching its line among the
starts of all lines. Bytes past the end of the text lie on its last line.
-/

namespace ClassScript

structure Position where
  line : Nat := 0
  column : Nat := 0
deriving DecidableEq, Repr, Inhabited

namespace Position

/-- No position. -/
def unknown : Position := ⟨0, 0⟩

/-- The position of the first character of a text. -/
def start : Position := ⟨1, 1⟩

/-- What is kept of a line or column. -/
def kept (n : Nat) : Nat := n % UInt32.size

/-- The position behind a character. -/
def advance (p : Position) (c : Char) : Position :=
  if c = '\n' then ⟨kept (p.line + 1), 1⟩ else ⟨p.line, kept (p.column + c.utf8Size)⟩

/-- The position behind a run of characters. -/
def after (p : Position) (cs : List Char) : Position := cs.foldl advance p

@[simp] theorem after_nil (p : Position) : p.after [] = p := rfl

@[simp] theorem after_cons (p : Position) (c : Char) (cs : List Char) :
    p.after (c :: cs) = (p.advance c).after cs := rfl

theorem after_append (p : Position) (xs ys : List Char) : p.after (xs ++ ys) = (p.after xs).after ys := by
  simp [after, List.foldl_append]

end Position

/-! ## Byte offsets -/

/-- What the search for a number in a sorted array finds: its place, or the place where it would have
to be inserted. -/
inductive Lookup where
  | found (i : Nat)
  | missing (i : Nat)
deriving DecidableEq, Repr

/-- The place of the largest number that is no larger than the one searched. -/
def Lookup.floor? : Lookup → Option Nat
  | .found i => some i
  | .missing 0 => none
  | .missing (i + 1) => some i

/-- Searches a number from `lo` up to `hi` by halving. -/
def binarySearch (xs : Array Nat) (x lo hi : Nat) : Lookup :=
  if lo < hi then
    let mid := lo + (hi - lo) / 2
    if xs.getD mid 0 = x then .found mid
    else if xs.getD mid 0 < x then binarySearch xs x (mid + 1) hi
    else binarySearch xs x lo mid
  else .missing lo
termination_by hi - lo

/-- The byte offsets at which the lines of a text start, in their order. -/
structure LineIndex where
  starts : Array Nat
deriving DecidableEq, Repr

namespace LineIndex

/-- What follows each newline of the text `cs`, which starts at a byte offset. -/
def startsFrom (offset : Nat) : List Char → List Nat
  | [] => []
  | c :: cs =>
    let next := offset + c.utf8Size
    if c = '\n' then next :: startsFrom next cs else startsFrom next cs

def ofText (text : String) : LineIndex := ⟨(0 :: startsFrom 0 text.toList).toArray⟩

/-- The position of a byte offset. There is none if the search ends before the first line, outside of
the index or on a line behind the offset. -/
def locate? (index : LineIndex) (offset : Nat) : Option Position := do
  let line ← (binarySearch index.starts offset 0 index.starts.size).floor?
  let start ← index.starts[line]?
  if start ≤ offset then some ⟨Position.kept (line + 1), Position.kept (offset - start + 1)⟩ else none

end LineIndex

/-- The position of a byte offset in a text. -/
def Position.atOffset (text : String) (offset : Nat) : Position :=
  ((LineIndex.ofText text).locate? offset).getD .unknown

end ClassScript
