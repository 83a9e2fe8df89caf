import ClassScript.Grammar.Fault
import ClassScript.Parser
import ClassScript.Tree.Basic
/-!
# Rules and their smallest parts
-/

namespace ClassScript.Grammar

abbrev Reads := Parser Fault Token

abbrev Takes := Consuming Fault Token

/-- The rules that refer to each other, for fewer than `n` tokens. -/
structure Rules (n : Nat) where
  /-- An expression whose operators bind at least as tightly as the given power. -/
  expr : Nat → Takes n Expr
  /-- An operand with the operators before it and a power behind it. -/
  unary : Takes n Expr
  /-- A primary expression with accesses and calls behind it. -/
  suffixed : Takes n Expr
  primary : Takes n Expr
  stmt : Takes n Stmt

variable {n : Nat} {α : Type}

/-! ## Looking at the next token -/

def atSymbol (s : String) (ts : List Token) : Bool := ts.head?.any (·.isPunct s)

def atWord (w : String) (ts : List Token) : Bool := ts.head?.any (·.isWord w)

def variableOf? (t : Token) : Option String :=
  match t.kind with
  | .variable v => some v
  | _ => none

def nameOf? (t : Token) : Option String :=
  match t.kind with
  | .name w => some w
  | _ => none

def atVariable (ts : List Token) : Bool := ts.head?.any fun t => (variableOf? t).isSome

def atName (ts : List Token) : Bool := ts.head?.any fun t => (nameOf? t).isSome

/-! ## Failing at the next token -/

def expected (what : Expected) (ts : List Token) : Fault :=
  ⟨.expected what (ts.head?.map (·.kind)), ts.head?.map (·.pos)⟩

def refused (feature : Feature) (ts : List Token) : Fault :=
  ⟨.unsupported feature, ts.head?.map (·.pos)⟩

def failExpected (what : Expected) : Reads n α := do Parser.fail (expected what (← Parser.ahead))

def refuse (feature : Feature) : Reads n α := do Parser.fail (refused feature (← Parser.ahead))

/-- Refuses the feature if it shows in the tokens ahead. -/
def refuseIf (shows : List Token → Bool) (feature : Feature) : Reads n Unit := do
  if shows (← Parser.ahead) then refuse feature

/-! ## Taking the next token -/

/-- The position of the next token. -/
def here : Reads n Position := do return ((← Parser.ahead).head?.map (·.pos)).getD .unknown

def skip : Reads n Unit := do discard (Parser.accept fun _ => true)

def accepts (s : String) : Reads n Bool := Parser.accept (·.isPunct s)

def acceptsWord (w : String) : Reads n Bool := Parser.accept (·.isWord w)

def symbol (s : String) : Reads n Unit := do
  unless ← accepts s do failExpected (.symbol s)

def keyword (w : String) : Reads n Unit := do
  unless ← acceptsWord w do failExpected (.symbol w)

def word : Takes n String := .take (expected .name) nameOf?

def variableName : Takes n String := .take (expected .variable) variableOf?

def name : Takes n Name := word.map Name.parse

def names : Takes n (List Name) := Parser.separated (·.isPunct ",") name

/-- The end of a statement: a semicolon, or the end of the text. -/
def endStatement : Reads n Unit := do
  unless (← Parser.ahead).isEmpty do symbol ";"

/-- Items with commas between them, and perhaps behind the last, up to a closing symbol. -/
def listUntil (close : String) (item : Takes n α) : Reads n (List α) := do
  let items ← Parser.separatedUntil (atSymbol close) (·.isPunct ",") item
  symbol close
  return items

/-- The value behind an optional symbol. -/
def optionally (s : String) (p : Takes n α) : Reads n (Option α) := do
  if ← accepts s then return some (← p.parser) else return none

end ClassScript.Grammar
