import ClassScript.Decimal.Nearest
/-!
# Literals

What the spelling of a literal stands for. In single quotes a backslash escapes itself and the
quote; in double quotes there are a few more escapes, every other backslash stays, and a dollar sign
or brace that would start an interpolation is refused.
-/

namespace ClassScript.Literal

/-- The text between single quotes, decoded. -/
def single : List Char → List Char
  | '\\' :: '\'' :: r => '\'' :: single r
  | '\\' :: '\\' :: r => '\\' :: single r
  | c :: r => c :: single r
  | [] => []

/-- How an interpolation starts: by a dollar sign or by a brace. -/
inductive Interpolation where
  | dollar
  | brace
deriving DecidableEq, Repr

/-- Whether a dollar sign before this character starts an interpolation. -/
def interpolates (c : Char) : Bool := c.isAlpha || c == '_' || c == '\x7b'

/-- What a backslash with this character stands for between double quotes. -/
def escape (c : Char) : List Char :=
  match c with
  | 'n' => ['\n']
  | 't' => ['\t']
  | 'r' => ['\r']
  | '0' => ['\x00']
  | '\\' => ['\\']
  | '"' => ['"']
  | '$' => ['$']
  | other => ['\\', other]

/-- The text between double quotes, decoded. -/
def double : List Char → Except Interpolation (List Char)
  | [] => .ok []
  | ['\\'] => .ok ['\\']
  | '\\' :: c :: r => do return escape c ++ (← double r)
  | c :: r =>
    if c = '$' ∧ r.head?.any interpolates then .error .dollar
    else if c = '\x7b' ∧ r.head? = some '$' then .error .brace
    else do return c :: (← double r)

def digitValue (c : Char) : Nat :=
  if c.isDigit then c.toNat - 48
  else if 'a' ≤ c ∧ c ≤ 'f' then c.toNat - 87
  else c.toNat - 55

/-- The number with these digits. -/
def natural (base : Nat) (cs : List Char) : Nat := cs.foldl (fun n c => n * base + digitValue c) 0

/-- The largest integer a literal may spell. -/
def maxInt : Nat := Nat.pow 2 63 - 1

/-- The value of an integer literal, if it is in range. -/
def integer? (base : Nat) (digits : List Char) : Option Nat :=
  let n := natural base digits
  if n ≤ maxInt then some n else none

/-- The power of ten in the exponent part of a float literal. -/
def exponent (cs : List Char) : Int :=
  match cs with
  | '-' :: r => -(natural 10 r : Int)
  | '+' :: r => natural 10 r
  | r => natural 10 r

/-- The value of a float literal. -/
def float (cs : List Char) : Float :=
  let notMark (c : Char) : Bool := c != 'e' && c != 'E'
  let mantissa := cs.takeWhile notMark
  let power := exponent ((cs.dropWhile notMark).drop 1)
  let whole := mantissa.takeWhile (· != '.')
  let places := (mantissa.dropWhile (· != '.')).drop 1
  Decimal.toFloat (natural 10 (whole ++ places)) (power - places.length)

end ClassScript.Literal
