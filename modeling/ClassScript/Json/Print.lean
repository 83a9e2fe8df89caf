import ClassScript.Json.Basic
import ClassScript.Text.Quoted
/-!
# Printing JSON

One entry a line, indented by two blanks for each level.
-/

namespace ClassScript.Json

/-- Entries on lines of their own, one level deeper than the closing sign. -/
def lines (opening closing : String) (depth : Nat) (entries : List String) : String :=
  if entries.isEmpty then opening ++ closing
  else
    let indent (d : Nat) := "\n" ++ String.ofList (List.replicate (2 * d) ' ')
    opening ++ indent (depth + 1) ++ ("," ++ indent (depth + 1)).intercalate entries ++ indent depth
      ++ closing

mutual

/-- The text of a value whose closing sign stands at the given depth. A text without characters is
printed as an empty one. -/
def printAt (depth : Nat) : Json → String
  | .null => "null"
  | .bool b => if b then "true" else "false"
  | .number spelling => spelling
  | .string s => Quoted.quote (s.getD "")
  | .array items => lines "[" "]" depth (printItems (depth + 1) items)
  | .object fields => lines "\x7b" "\x7d" depth (printFields (depth + 1) fields)

def printItems (depth : Nat) : List Json → List String
  | [] => []
  | j :: rest => j.printAt depth :: printItems depth rest

def printFields (depth : Nat) : List JsonField → List String
  | [] => []
  | ⟨key, value⟩ :: rest =>
    (Quoted.quote (key.getD "") ++ ": " ++ value.printAt depth) :: printFields depth rest

end

def print (j : Json) : String := j.printAt 0

end ClassScript.Json
