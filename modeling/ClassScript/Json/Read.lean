import ClassScript.Json.Basic
import ClassScript.Parser
import ClassScript.Text.Quoted
/-!
# Reading JSON

A document is one value with blanks around it. Nothing is said about why a text is no document.
-/

namespace ClassScript

namespace Json

abbrev Reads := Parser Unit Char

abbrev Takes := Consuming Unit Char

variable {n : Nat}

def isBlank (c : Char) : Bool := c == ' ' || c == '\t' || c == '\n' || c == '\r'

def blanks : Reads n Unit := do discard (Parser.takeWhile isBlank)

def sign (c : Char) : Reads n Unit := do
  unless ← Parser.accept (· == c) do Parser.fail ()

/-! ## Texts -/

/-- A character of a text, or a code unit that is escaped. -/
inductive Piece where
  | char (c : Char)
  | unit (u : Nat)

/-- The text of the pieces; a high surrogate needs the low one right behind it. -/
def textOf : List Piece → Option (List Char)
  | [] => some []
  | .char c :: rest => (textOf rest).map (c :: ·)
  | .unit u :: rest =>
    if 0xD800 ≤ u ∧ u < 0xDC00 then
      match rest with
      | .unit v :: rest =>
        if 0xDC00 ≤ v ∧ v < 0xE000 then
          (textOf rest).map (Char.ofNat (0x10000 + (u - 0xD800) * 0x400 + (v - 0xDC00)) :: ·)
        else none
      | _ => none
    else if 0xDC00 ≤ u ∧ u < 0xE000 then none
    else (textOf rest).map (Char.ofNat u :: ·)

def hexDigit : Reads n Nat := do
  match ← Parser.take? Quoted.hexValue with
  | some d => return d
  | none => Parser.fail ()

/-- What stands behind a backslash. -/
def escape : Reads n Piece := do
  match ← Parser.take? some with
  | some '"' => return .char '"'
  | some '\\' => return .char '\\'
  | some '/' => return .char '/'
  | some 'b' => return .char '\x08'
  | some 'f' => return .char '\x0c'
  | some 'n' => return .char '\n'
  | some 'r' => return .char '\r'
  | some 't' => return .char '\t'
  | some 'u' =>
    let a ← hexDigit
    let b ← hexDigit
    let c ← hexDigit
    let d ← hexDigit
    return .unit (((a * 16 + b) * 16 + c) * 16 + d)
  | _ => Parser.fail ()

/-- A text behind its opening quote. -/
def textRest : Reads n (Option String) := do
  let pieces ← Parser.loop (fun (acc : List Piece) c _ =>
    if c = '"' then none
    else if c = '\\' then some do return (← escape) :: acc
    else if c.toNat < 32 then some (Parser.fail ())
    else some (pure (.char c :: acc))) []
  sign '"'
  return (textOf pieces.reverse).map String.ofList

/-! ## Numbers -/

def digits : Reads n (List Char) := do
  let ds ← Parser.takeWhile Char.isDigit
  if ds.isEmpty then Parser.fail ()
  return ds

/-- A point with digits, or nothing. -/
def fraction : Reads n (List Char) := do
  if ← Parser.accept (· == '.') then return '.' :: (← digits) else return []

/-- A power of ten, or nothing. -/
def power : Reads n (List Char) := do
  match ← Parser.take? fun c => if c == 'e' || c == 'E' then some c else none with
  | none => return []
  | some e =>
    let s ← Parser.take? fun c => if c == '+' || c == '-' then some c else none
    return e :: (s.toList ++ (← digits))

/-- A number behind its first digit; a leading zero stands alone. -/
def numberRest (first : Char) : Reads n (List Char) := do
  let more ← if first == '0' then pure [] else Parser.takeWhile Char.isDigit
  if (← Parser.ahead).head?.any Char.isDigit then Parser.fail ()
  let fraction ← fraction
  let power ← power
  return first :: (more ++ fraction ++ power)

/-! ## Values -/

/-- The rest of a word. -/
def wordRest (rest : String) (value : Json) : Reads n Json := do
  rest.toList.forM sign
  return value

/-- Items with commas between them and blanks around them, up to a closing sign. -/
def listRest {α : Type} (close : Char) (item : Takes n α) : Reads n (List α) := do
  blanks
  if ← Parser.accept (· == close) then return []
  let item : Takes n α := blanks.before fun _ => item.bind fun a => do
    blanks
    return a
  let items ← Parser.separated (· == ',') item
  sign close
  return items

def field (self : Takes n Json) : Takes n JsonField :=
  (Consuming.take (fun _ => ()) fun c => if c = '"' then some () else none).bind fun _ => do
    let key ← textRest
    blanks
    sign ':'
    blanks
    return ⟨key, ← self⟩

def value (self : Takes n Json) : Takes (n + 1) Json :=
  .first () fun c _ => match c with
    | '"' => do return .string (← textRest)
    | '[' => do return .array (← listRest ']' self)
    | '\x7b' => do return .object (← listRest '\x7d' (field self))
    | 't' => wordRest "rue" (.bool true)
    | 'f' => wordRest "alse" (.bool false)
    | 'n' => wordRest "ull" .null
    | '-' => do
      match ← Parser.take? fun c => if c.isDigit then some c else none with
      | some d => return .number (String.ofList ('-' :: (← numberRest d)))
      | none => Parser.fail ()
    | d => if d.isDigit then do return .number (String.ofList (← numberRest d)) else Parser.fail ()

def values : (n : Nat) → Takes n Json
  | 0 => .never
  | n + 1 => value (values n)

def document (self : Takes n Json) : Reads n Json := do
  blanks
  let j ← self
  blanks
  unless (← Parser.ahead).isEmpty do Parser.fail ()
  return j

/-- The value of a document, if the text is one. -/
def parse? (text : String) : Option Json :=
  let cs := text.toList
  match (document (values (cs.length + 1))).run cs (Nat.lt_succ_self _) with
  | .ok reply => some reply.value
  | .error _ => none

end Json

end ClassScript
