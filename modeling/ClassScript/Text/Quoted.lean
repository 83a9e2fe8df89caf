/-!
# Quoted text

String literals of the emitted program and of reports are quoted as in JSON: a quote, a backslash
and the control characters are escaped, everything else stands for itself. `decode` reads the inside
of a literal back.
-/

namespace ClassScript.Quoted

def hexDigit (n : Nat) : Char := if n < 10 then Char.ofNat (48 + n) else Char.ofNat (87 + n)

/-- How one character is spelled inside quotes. -/
def encodeChar (c : Char) : List Char :=
  if c = '"' then ['\\', '"']
  else if c = '\\' then ['\\', '\\']
  else if c = '\n' then ['\\', 'n']
  else if c = '\r' then ['\\', 'r']
  else if c = '\t' then ['\\', 't']
  else if c = '\x08' then ['\\', 'b']
  else if c = '\x0c' then ['\\', 'f']
  else if c.toNat < 32 then ['\\', 'u', '0', '0', hexDigit (c.toNat / 16), hexDigit (c.toNat % 16)]
  else [c]

def encode (cs : List Char) : List Char := cs.flatMap encodeChar

/-- The literal for a text. -/
def quote (s : String) : String := String.ofList ('"' :: (encode s.toList ++ ['"']))

def hexValue (c : Char) : Option Nat :=
  if '0' ≤ c ∧ c ≤ '9' then some (c.toNat - 48)
  else if 'a' ≤ c ∧ c ≤ 'f' then some (c.toNat - 87)
  else if 'A' ≤ c ∧ c ≤ 'F' then some (c.toNat - 55)
  else none

/-- Reads the inside of a literal; `none` for a spelling that `encode` never gives. -/
def decode : List Char → Option (List Char)
  | [] => some []
  | '\\' :: '"' :: r => (decode r).map ('"' :: ·)
  | '\\' :: '\\' :: r => (decode r).map ('\\' :: ·)
  | '\\' :: 'n' :: r => (decode r).map ('\n' :: ·)
  | '\\' :: 'r' :: r => (decode r).map ('\r' :: ·)
  | '\\' :: 't' :: r => (decode r).map ('\t' :: ·)
  | '\\' :: 'b' :: r => (decode r).map ('\x08' :: ·)
  | '\\' :: 'f' :: r => (decode r).map ('\x0c' :: ·)
  | '\\' :: 'u' :: '0' :: '0' :: h :: l :: r => do
    let h ← hexValue h
    let l ← hexValue l
    return Char.ofNat (16 * h + l) :: (← decode r)
  | c :: r => if c = '\\' ∨ c = '"' then none else (decode r).map (c :: ·)

end ClassScript.Quoted
