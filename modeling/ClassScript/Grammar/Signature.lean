import ClassScript.Grammar.Basic
/-!
# Modifiers, types, parameters and blocks
-/

namespace ClassScript.Grammar

variable {n : Nat}

/-! ## Modifiers -/

def modifierWords : List String :=
  ["public", "protected", "private", "static", "abstract", "final", "var", "readonly"]

def isModifier (t : Token) : Bool :=
  match nameOf? t with
  | some w => modifierWords.contains (lower w)
  | none => false

/-- What the words say together; the last visibility counts. -/
def modifiersOf (words : List String) : Modifiers :=
  words.foldl (fun m w => match w with
    | "static" => { m with isStatic := true }
    | "abstract" => { m with isAbstract := true }
    | "final" => { m with isFinal := true }
    | w => match Visibility.ofWord? w with
      | some v => { m with visibility := some v }
      | none => m) {}

/-- The modifiers ahead, as small words. -/
def modifiers : Reads n (List String) := do
  return (← Parser.takeWhile isModifier).filterMap fun t => (nameOf? t).map lower

/-! ## Types and parameters -/

def typeHint : Takes n TypeHint :=
  Parser.before (accepts "?") fun nullable => name.bind fun name => do
    refuseIf (fun ts => atSymbol "|" ts || (atSymbol "&" ts && atName ts.tail)) .combinedTypes
    return ⟨name, nullable⟩

/-- A return type, which is read and dropped. -/
def returnType : Reads n Unit := do discard (optionally ":" typeHint)

def param (self : Rules n) : Takes n Param :=
  let intro : Reads n (Position × Bool × Option TypeHint × Bool × Bool) := do
    let pos ← here
    let words ← modifiers
    let ts ← Parser.ahead
    let type ← if atVariable ts || atSymbol "&" ts || atSymbol "..." ts then pure none
      else some <$> typeHint.parser
    let byRef ← accepts "&"
    let variadic ← accepts "..."
    return (pos, !words.isEmpty, type, byRef, variadic)
  intro.before fun (pos, promoted, type, byRef, variadic) => variableName.bind fun name => do
    let default ← optionally "=" (self.expr 0)
    return { name, type, default, byRef, variadic, promoted, pos }

def params (self : Rules n) : Reads n (List Param) := do
  symbol "("
  listUntil ")" (param self)

/-! ## Blocks -/

/-- The statements of a block and its closing brace. -/
def blockRest (self : Rules n) : Reads n (List Stmt) := do
  let stmts ← Parser.many (atSymbol "\x7d") (.look fun ts =>
    if ts.isEmpty then .fail (expected (.symbol "\x7d") ts) else self.stmt)
  symbol "\x7d"
  return stmts

def block (self : Rules n) : Reads n (List Stmt) := do
  symbol "\x7b"
  blockRest self

/-- A block, or one statement without braces. -/
def body (self : Rules n) : Reads n (List Stmt) := do
  refuseIf (atSymbol ":") .alternativeBlocks
  if atSymbol "\x7b" (← Parser.ahead) then block self else return [← self.stmt]

def parenthesised (self : Rules n) : Reads n Expr := do
  symbol "("
  let e ← self.expr 0
  symbol ")"
  return e

end ClassScript.Grammar
