import ClassScript.Grammar.Expression
import ClassScript.Grammar.Member
/-!
# Statements and declarations

A statement starts with its keyword, unless a double colon follows that; each rule here reads what
stands behind the first token, at `pos`.
-/

namespace ClassScript.Grammar

variable {n : Nat}

/-! ## Namespaces and imports -/

def namespaceRest (self : Rules n) (pos : Position) : Reads n Stmt := do
  let name ← Parser.take? nameOf?
  let name := name.map Name.parse
  if atSymbol "\x7b" (← Parser.ahead) then return .nsBlock pos name (← block self) true
  if name.isNone then failExpected .namespaceName
  symbol ";"
  let body ← Parser.many (fun ts => ts.isEmpty || atWord "namespace" ts) self.stmt
  return .nsBlock pos name body false

def importItem : Takes n Import :=
  name.bind fun name => do
    refuseIf (atSymbol "\x7b") .groupUse
    if ← acceptsWord "as" then return ⟨name, some (← word.parser)⟩ else return ⟨name, none⟩

def importsRest (pos : Position) : Reads n Stmt := do
  refuseIf (fun ts => atWord "function" ts || atWord "const" ts) .importedFunctions
  let items ← (Parser.separated (·.isPunct ",") importItem).parser
  endStatement
  return .imports pos items

/-! ## Classes and interfaces -/

def isClassModifier (t : Token) : Bool :=
  t.isWord "abstract" || t.isWord "final" || t.isWord "readonly"

/-- A class whose first token is `first`: a modifier, or the word `class` itself. -/
def classRest (self : Rules n) (first : Token) : Reads n Stmt := do
  let modifiers ← if isClassModifier first then do
      let more ← Parser.takeWhile isClassModifier
      keyword "class"
      pure (first :: more)
    else pure []
  let name ← word.parser
  let parent ← if ← acceptsWord "extends" then some <$> ClassScript.Grammar.name.parser else pure none
  let interfaces ← if ← acceptsWord "implements" then names.parser else pure []
  let members ← members self
  return .classDecl
    { name, parent, interfaces, members
      isAbstract := modifiers.any (·.isWord "abstract")
      isFinal := modifiers.any fun t => t.isWord "final" || t.isWord "readonly"
      pos := first.pos
      qualified := none
      scriptApis := none }

def interfaceRest (self : Rules n) (pos : Position) : Reads n Stmt := do
  let name ← word.parser
  let parents ← if ← acceptsWord "extends" then names.parser else pure []
  let members ← members self
  match members.findSome? Member.property? with
  | some d => .fail ⟨.interfaceProperty name d.name, some d.pos⟩
  | none => return .interfaceDecl { name, parents, members, pos, qualified := none }

/-- A function, of which only the name is kept. -/
def functionRest (self : Rules n) (pos : Position) : Reads n Stmt := do
  discard (accepts "&")
  let name ← word.parser
  discard (params self)
  returnType
  discard (block self)
  return .functionDecl pos name

/-! ## Control flow -/

def elseIf (self : Rules n) : Reads n ElseIf := do
  let test ← parenthesised self
  return ⟨test, ← body self⟩

def branchRest (self : Rules n) (pos : Position) : Reads n Stmt := do
  let test ← parenthesised self
  let thenBody ← body self
  let elseIfs ← Parser.loop (fun (acc : List ElseIf) t rest =>
    if t.isWord "elseif" then some do return (← elseIf self) :: acc
    else if t.isWord "else" && atWord "if" rest then some do
      skip
      return (← elseIf self) :: acc
    else none) []
  let otherwise ← if ← acceptsWord "else" then some <$> body self else pure none
  return .branch pos test thenBody elseIfs.reverse otherwise

def whileRest (self : Rules n) (pos : Position) : Reads n Stmt := do
  let test ← parenthesised self
  return .whileLoop pos test (← body self)

def forRest (self : Rules n) (pos : Position) : Reads n Stmt := do
  symbol "("
  let init ← listUntil ";" (self.expr 0)
  let test ← listUntil ";" (self.expr 0)
  let step ← listUntil ")" (self.expr 0)
  return .forLoop pos init test step (← body self)

def foreachRest (self : Rules n) (pos : Position) : Reads n Stmt := do
  symbol "("
  let subject ← self.expr 0
  keyword "as"
  let firstByRef ← accepts "&"
  let first ← self.expr 0
  let (key, value, byRef) ← if ← accepts "=>" then do
      if firstByRef then refuse .referenceKeys
      let byRef ← accepts "&"
      pure (some first, ← self.expr 0, byRef)
    else pure (none, first, firstByRef)
  symbol ")"
  return .foreach pos subject key value byRef (← body self)

/-- A catch clause, behind the word `catch`. -/
def catchRest (self : Rules n) (pos : Position) : Reads n Catch := do
  symbol "("
  let types ← (Parser.separated (·.isPunct "|") name).parser
  refuseIf (!atVariable ·) .catchWithoutVariable
  let var ← variableName.parser
  symbol ")"
  return { types, var, body := ← block self, pos }

def tryRest (self : Rules n) (pos : Position) : Reads n Stmt := do
  let body ← block self
  let catches ← Parser.loop (fun (acc : List Catch) t _ =>
    if t.isWord "catch" then some do return (← catchRest self t.pos) :: acc else none) []
  let cleanup ← if ← acceptsWord "finally" then some <$> block self else pure none
  if catches.isEmpty && cleanup.isNone then failExpected .catchOrFinally
  return .tryCatch pos body catches.reverse cleanup

/-- The end of `break` or `continue`; a level other than one is refused. -/
def exitRest (stmt : Stmt) : Reads n Stmt := do
  match ← Parser.ahead with
  | ⟨.int level, _⟩ :: _ =>
    unless level = 1 do refuse .multiLevelExit
    skip
  | _ => pure ()
  endStatement
  return stmt

/-! ## Simple statements -/

def returnRest (self : Rules n) (pos : Position) : Reads n Stmt := do
  let ts ← Parser.ahead
  let value ← if atSymbol ";" ts || ts.isEmpty then pure none else some <$> (self.expr 0).parser
  endStatement
  return .ret pos value

def echoRest (self : Rules n) (pos : Position) : Reads n Stmt := do
  let exprs ← (Parser.separated (·.isPunct ",") (self.expr 0)).parser
  endStatement
  return .echo pos exprs

def throwRest (self : Rules n) (pos : Position) : Reads n Stmt := do
  let value ← self.expr 0
  endStatement
  return .throwValue pos value

/-- Directives between parentheses, which have no effect. -/
def declareRest (pos : Position) : Reads n Stmt := do
  symbol "("
  discard (Parser.takeWhile fun t => !t.isPunct ")")
  symbol ")"
  endStatement
  return .nop pos

/-! ## Statements -/

/-- What the keyword `word` starts; `t` is its token and `rest` follows it. -/
def keywordStmt? (self : Rules n) (t : Token) (word : String) (rest : List Token) :
    Option (Reads n Stmt) :=
  match word with
  | "namespace" => some (namespaceRest self t.pos)
  | "use" => some (importsRest t.pos)
  | "class" | "abstract" | "final" => some (classRest self t)
  | "readonly" => if atWord "class" rest then some (classRest self t) else none
  | "interface" => some (interfaceRest self t.pos)
  | "function" => if atSymbol "(" rest then none else some (functionRest self t.pos)
  | "if" => some (branchRest self t.pos)
  | "while" => some (whileRest self t.pos)
  | "for" => some (forRest self t.pos)
  | "foreach" => some (foreachRest self t.pos)
  | "try" => some (tryRest self t.pos)
  | "break" => some (exitRest (.breakLoop t.pos))
  | "continue" => some (exitRest (.continueLoop t.pos))
  | "return" => some (returnRest self t.pos)
  | "echo" => some (echoRest self t.pos)
  | "throw" => some (throwRest self t.pos)
  | "declare" => some (declareRest t.pos)
  | "static" =>
    if atSymbol "(" rest || atWord "function" rest then none
    else some (.fail (refused .staticVariables [t]))
  | w => if refusedWords.contains w then some (.fail (refused (.word w) [t])) else none

/-- What a statement's first token starts, if the statement is not an expression. -/
def stmtRest? (self : Rules n) (t : Token) (rest : List Token) : Option (Reads n Stmt) :=
  match t.kind with
  | .punct "\x7b" => some do return .block t.pos (← blockRest self)
  | .punct ";" => some (pure (.nop t.pos))
  | .heredoc => some (.fail (refused .heredoc [t]))
  | .name w => if atSymbol "::" rest then none else keywordStmt? self t (lower w) rest
  | _ => none

def stmt (self : Rules n) : Takes (n + 1) Stmt :=
  .firstOr (stmtRest? self) ((expr self 0).andThen fun e => do
    endStatement
    return .expression e)

end ClassScript.Grammar
