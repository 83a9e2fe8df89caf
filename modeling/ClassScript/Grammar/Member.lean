import ClassScript.Grammar.Signature
/-!
# Members of classes and interfaces

One declaration may declare several constants or properties, so it reads as a list of members. A
method has the position of its first modifier, a constant or property that of its own name.
-/

namespace ClassScript.Grammar

variable {n : Nat}

def constant (self : Rules n) (modifiers : Modifiers) : Takes n Member :=
  Parser.before here fun pos => word.bind fun name => do
    symbol "="
    let value ← self.expr 0
    return .const { name, value, modifiers, resolved := none, pos }

def property (self : Rules n) (modifiers : Modifiers) : Takes n Member :=
  Parser.before here fun pos => variableName.bind fun name => do
    let default ← optionally "=" (self.expr 0)
    return .property { name, default, modifiers, resolved := none, pos }

/-- Constants, behind the word `const`; the type that may stand first is dropped. -/
def constantsRest (self : Rules n) (modifiers : Modifiers) : Reads n (List Member) := do
  if atName (← Parser.ahead).tail then skip
  let members ← Parser.separated (·.isPunct ",") (constant self modifiers)
  endStatement
  return members

/-- A method, behind the word `function`. -/
def methodRest (self : Rules n) (modifiers : Modifiers) (pos : Position) : Reads n (List Member) := do
  let byRefReturn ← accepts "&"
  let name ← word.parser
  let params ← params self
  returnType
  let body ← if ← accepts ";" then pure none else some <$> block self
  return [.method { name, params, body, byRefReturn, modifiers, resolved := none, pos }]

/-- Properties; their type is dropped. -/
def properties (self : Rules n) (modifiers : Modifiers) : Takes n (List Member) :=
  let type : Reads n Unit := do
    unless atVariable (← Parser.ahead) do discard typeHint.parser
  type.before fun _ => (Parser.separated (·.isPunct ",") (property self modifiers)).bind fun members => do
    endStatement
    return members

/-- Traits, behind the word `use`. -/
def traitsRest : Reads n (List Member) := do
  let traits ← names.parser
  refuseIf (atSymbol "\x7b") .traitAdaptation
  endStatement
  return [.traitUse traits]

/-- The given parser behind the next token, which has to pass the test. -/
def behind (test : Token → Bool) (p : Reads n (List Member)) : Takes n (List Member) :=
  (Consuming.take (expected (.symbol "\x7d")) fun t => if test t then some () else none).bind fun _ => p

/-- A declaration behind its modifiers. -/
def declaration (self : Rules n) (words : List String) (pos : Position) : Takes n (List Member) :=
  let modifiers := modifiersOf words
  .look fun ts =>
    if atWord "const" ts then behind (·.isWord "const") (constantsRest self modifiers)
    else if atWord "function" ts then behind (·.isWord "function") (methodRest self modifiers pos)
    else properties self modifiers

/-- One declaration with its modifiers, or the use of traits. -/
def member (self : Rules n) : Takes n (List Member) :=
  .look fun ts =>
    if ts.isEmpty then .fail (expected (.symbol "\x7d") ts)
    else if atWord "use" ts then behind (·.isWord "use") traitsRest
    else Parser.before here fun pos => modifiers.before fun words => declaration self words pos

/-- Members between braces. -/
def members (self : Rules n) : Reads n (List Member) := do
  symbol "\x7b"
  let members ← Parser.many (atSymbol "\x7d") (member self)
  symbol "\x7d"
  return members.flatten

end ClassScript.Grammar
