import ClassScript.Grammar.Operator
import ClassScript.Grammar.Signature
/-!
# Expressions

Operators between operands are read by binding power. An assignment takes whatever stands before
it, however tightly the surrounding operators bind, as long as that can be assigned to.
-/

namespace ClassScript.Grammar

variable {n : Nat}

/-! ## Arguments, array items and closures -/

def arg (self : Rules n) : Takes n Arg :=
  .look fun ts =>
    if atName ts && atSymbol ":" ts.tail then .fail (refused .namedArguments ts)
    else (accepts "...").before fun unpack => .look fun ts =>
      if unpack && atSymbol ")" ts then .fail (refused .callables ts)
      else (self.expr 0).map (⟨·, unpack⟩)

/-- The arguments behind an opening parenthesis, and the closing one. -/
def argsRest (self : Rules n) : Reads n (List Arg) := listUntil ")" (arg self)

def args? (self : Rules n) : Reads n (Option (List Arg)) := do
  if ← accepts "(" then return some (← argsRest self) else return none

def item (self : Rules n) : Takes n ArrayItem :=
  .look fun ts =>
    if atSymbol "," ts then .fail (refused .destructuring ts)
    else (accepts "...").before fun unpack => (accepts "&").before fun byRef =>
      (self.expr 0).bind fun e => do
        if unpack || byRef then return ⟨none, e, byRef, unpack⟩
        if ← accepts "=>" then
          let byRef ← accepts "&"
          return ⟨some e, ← self.expr 0, byRef, false⟩
        return ⟨none, e, false, false⟩

def capture : Takes n Capture :=
  Parser.before (accepts "&") fun byRef => variableName.map (⟨·, byRef⟩)

/-- A closure, behind the word `function` at `pos`. -/
def closureRest (self : Rules n) (pos : Position) (isStatic : Bool) : Reads n Expr := do
  let byRefReturn ← accepts "&"
  let params ← params self
  let captures ← if ← acceptsWord "use" then do
      symbol "("
      listUntil ")" capture
    else pure []
  returnType
  let body ← block self
  return .closure pos { params, captures, body, byRefReturn, isStatic, isIteration := false }

/-! ## Accesses -/

def memberName (self : Rules n) : Reads n MemberName := do
  match ← Parser.ahead with
  | ⟨.name w, _⟩ :: _ =>
    skip
    return .ident w
  | ⟨.variable v, pos⟩ :: _ =>
    skip
    return .dynamic (.var pos v)
  | ts =>
    if atSymbol "\x7b" ts then
      skip
      let e ← self.expr 0
      symbol "\x7d"
      return .dynamic e
    else failExpected .memberName

/-- What follows the double colon. -/
def staticAccess (self : Rules n) (cls : ClassRef) (pos : Position) : Reads n Expr := do
  match ← Parser.ahead with
  | ⟨.variable v, _⟩ :: _ =>
    skip
    refuseIf (atSymbol "(") .variableStaticCalls
    return .staticProperty pos cls v
  | ⟨.name w, _⟩ :: _ =>
    skip
    match ← args? self with
    | some args => return .staticCall pos cls (.ident w) args
    | none => return .classConst pos cls w
  | _ => failExpected .memberAfterColons

/-- One access or call, behind its first token. -/
def suffix? (self : Rules n) (e : Expr) (t : Token) : Option (Reads n Expr) :=
  match t.kind with
  | .punct "->" => some do
    let name ← memberName self
    match ← args? self with
    | some args => return .methodCall e.pos e name args none
    | none => return .property e.pos e name none
  | .punct "[" => some do
    let dim ← if atSymbol "]" (← Parser.ahead) then pure none else some <$> (self.expr 0).parser
    symbol "]"
    return .index e.pos e dim
  | .punct "(" => some do return .call e.pos (.dynamic e) (← argsRest self)
  | .punct "::" => some (staticAccess self (.dynamic e) e.pos)
  | .punct "++" => some (pure (.step e.pos .postInc e))
  | .punct "--" => some (pure (.step e.pos .postDec e))
  | _ => none

def suffixes (self : Rules n) (e : Expr) : Reads n Expr :=
  Parser.loop (fun e t _ => suffix? self e t) e

/-! ## Primary expressions -/

/-- Skips to the closing brace of a block whose opening brace is read. -/
def skipBlock : Reads n Unit := do
  let depth ← Parser.loop (fun (depth : Nat) t _ =>
    if depth = 0 then none
    else if t.isPunct "\x7b" then some (pure (depth + 1))
    else if t.isPunct "\x7d" then some (pure (depth - 1))
    else some (pure depth)) 1
  unless depth = 0 do failExpected (.symbol "\x7d")

/-- An anonymous class, behind `new class`. -/
def anonymousClassRest (self : Rules n) (pos : Position) : Reads n Expr := do
  discard (args? self)
  if ← acceptsWord "extends" then discard word.parser
  if ← acceptsWord "implements" then discard names.parser
  symbol "\x7b"
  skipBlock
  return .anonymousClass pos

/-- An instantiation, behind the word `new` at `pos`. -/
def newRest (self : Rules n) (pos : Position) : Reads n Expr := do
  if ← acceptsWord "class" then anonymousClassRest self pos
  else
    let cls ← match ← Parser.ahead with
      | ⟨.name w, _⟩ :: _ => do
        skip
        pure (classRef w)
      | ⟨.variable v, vpos⟩ :: _ => do
        skip
        pure (.dynamic (.var vpos v))
      | ts =>
        if atSymbol "(" ts then .dynamic <$> parenthesised self else failExpected .className
    return .new pos cls ((← args? self).getD [])

/-- An expression that starts with the name `raw`, with the tokens `rest` behind it. -/
def nameExpr (self : Rules n) (t : Token) (raw : String) (rest : List Token) : Reads n Expr :=
  let pos := t.pos
  let plain : Reads n Expr := do
    if ← accepts "::" then staticAccess self (classRef raw) pos
    else match ← args? self with
      | some args => return .call pos (.named (Name.parse raw)) args
      | none => return .const pos (Name.parse raw)
  if atSymbol "::" rest then plain
  else match lower raw with
    | "true" => pure (.bool pos true)
    | "false" => pure (.bool pos false)
    | "null" => pure (.null pos)
    | "new" => newRest self pos
    | "function" => closureRest self pos false
    | "throw" => .fail (refused .throwExpressions [t])
    | "array" =>
      if atSymbol "(" rest then do
        skip
        return .array pos (← listUntil ")" (item self))
      else plain
    | "isset" =>
      if atSymbol "(" rest then do
        skip
        return .isset pos ((← argsRest self).map (·.value))
      else plain
    | "static" =>
      if atWord "function" rest then do
        let pos ← here
        skip
        closureRest self pos true
      else plain
    | w => if refusedWords.contains w then .fail (refused (.word w) [t]) else plain

def primary (self : Rules n) : Takes (n + 1) Expr :=
  .first (expected .expression []) fun t rest => match t.kind with
    | .variable v => pure (.var t.pos v)
    | .int v => pure (.int t.pos v)
    | .float v => pure (.float t.pos v)
    | .str v => pure (.string t.pos v)
    | .heredoc => .fail (refused .heredoc [t])
    | .name raw => nameExpr self t raw rest
    | .punct "(" => do
      let e ← self.expr 0
      symbol ")"
      return e
    | .punct "[" => do return .array t.pos (← listUntil "]" (item self))
    | .punct "$" => do
      if ← accepts "\x7b" then
        let e ← self.expr 0
        symbol "\x7d"
        return .dynamicVariable t.pos e
      else return .dynamicVariable t.pos (← self.primary)
    | .punct _ => .fail (expected .expression [t])

def suffixed (self : Rules n) : Takes (n + 1) Expr := (primary self).andThen (suffixes self)

/-! ## Operators -/

/-- What an operator before its operand makes, behind its first token. -/
def before? (self : Rules n) (t : Token) (rest : List Token) : Option (Reads n Expr) :=
  match unaryOp? t.kind with
  | some (op, power) => some do return .unary t.pos op (← self.expr power)
  | none => match t.kind with
    | .punct "@" => some (.fail (refused .errorSuppression [t]))
    | .punct "&" => some (.fail (refused .references [t]))
    | .punct "++" => some do return .step t.pos .preInc (← self.suffixed)
    | .punct "--" => some do return .step t.pos .preDec (← self.suffixed)
    | .punct "(" => match rest with
      | ⟨.name w, _⟩ :: close :: _ => match castType? w with
        | some type =>
          if close.isPunct ")" then some do
            skip
            skip
            return .cast t.pos type (← self.expr Binding.unary)
          else none
        | none => none
      | _ => none
    | _ => none

def unary (self : Rules n) : Takes (n + 1) Expr :=
  .firstOr (before? self) (.look fun ts => (suffixed self).andThen fun base => do
    if ← accepts "**" then
      return .binary ((ts.head?.map (·.pos)).getD base.pos) .pow base (← self.unary)
    else return base)

/-- The class behind `instanceof`. -/
def testedClass : Reads n ClassRef := do
  match ← Parser.ahead with
  | ⟨.name w, _⟩ :: _ =>
    skip
    return classRef w
  | ⟨.variable v, pos⟩ :: _ =>
    skip
    return .dynamic (.var pos v)
  | _ => failExpected .className

/-- One operator and its right operand, behind the operator's token; `left` is read already. -/
def operator? (self : Rules n) (least : Nat) (left : Expr) (t : Token) : Option (Reads n Expr) :=
  match assignment? t.kind with
  | some kind =>
    if isAssignable left then some do
      match kind with
      | .plain =>
        refuseIf (atSymbol "&") .assignByReference
        return .assign left.pos left (← self.expr Binding.assign) none
      | .compound op => return .assignOp left.pos op left (← self.expr Binding.assign)
    else if isArray left then some (.fail (refused .destructuring [t]))
    else some (.fail ⟨.assignTarget, some t.pos⟩)
  | none =>
    if t.isPunct "??" || t.isPunct "??=" then some (.fail (refused .nullCoalescing [t]))
    else if t.isPunct "?" then
      if Binding.ternary < least then none else some do
        let whenTrue ← if ← accepts ":" then pure none else do
          let e ← self.expr Binding.assign
          symbol ":"
          pure (some e)
        return .ternary left.pos left whenTrue (← self.expr (Binding.ternary + 1))
    else if t.isWord "instanceof" then
      if Binding.instanceOf < least then none
      else some do return .instanceOf left.pos left (← testedClass)
    else match binaryOp? t.kind with
      | none => none
      | some (op, power) =>
        if power < least then none
        else some do return .binary left.pos op left (← self.expr (power + 1))

def expr (self : Rules n) (least : Nat) : Takes (n + 1) Expr :=
  (unary self).andThen (Parser.loop fun left t _ => operator? self least left t)

end ClassScript.Grammar
