import ClassScript.Script.Fault
import ClassScript.Script.Node
import ClassScript.Text.Word
/-!
# Making nodes

Each constructor checks the shape of its parts, so a node made by them alone is well formed:
expressions stand where expressions belong, statements in blocks, and every name is an identifier.
-/

namespace ClassScript.Script

/-- Whether a name is an ASCII identifier of the emitted language, reserved or not. -/
def isIdentifierName (name : String) : Bool :=
  match name.toList with
  | [] => false
  | c :: cs => (isWordStart c || c == '$') && cs.all fun c => isWordChar c || c == '$'

/-- Fails unless the node is an expression. -/
def needExpression (role : String) (n : Node) : Built Unit :=
  if n.isStatement then .error (.notExpression role n.tag) else .ok ()

/-! ## Leaves -/

def ident (name : String) : Built Node :=
  if isIdentifierName name then .ok (.identifier name) else .error (.notIdentifier name)

def null : Node := .identifier "null"

def undefined : Node := .identifier "undefined"

def boolean (b : Bool) : Node := .identifier (if b then "true" else "false")

/-! ## Expressions -/

def assign (target value : Node) : Built Node := do
  unless target.isAssignable do throw (.notAssignable target.tag)
  needExpression "assigned value" value
  return .assign target value

def declare (name : String) (value : Option Node) : Built Node := do
  unless isIdentifierName name do throw (.notVariable name)
  value.forM (needExpression "initializer")
  return .declare name value

def binary (symbol : String) (left right : Node) : Built Node :=
  match BinaryOperator.ofSymbol? symbol with
  | none => .error (.unknownBinary symbol)
  | some op => do
    needExpression "left operand" left
    needExpression "right operand" right
    return .binary op left right

/-- The operands with the operator between them, grouped to the left; one operand stays alone. -/
def chain (symbol : String) : List Node → Built Node
  | [] => .error (.emptyChain symbol)
  | n :: ns => ns.foldlM (binary symbol) n

def unary (symbol : String) (operand : Node) : Built Node :=
  match UnaryOperator.ofSymbol? symbol with
  | none => .error (.unknownUnary symbol)
  | some op => do
    needExpression "operand" operand
    return .unary op operand

def negate (operand : Node) : Built Node := unary "!" operand

def ternary (test whenTrue otherwise : Node) : Built Node := do
  needExpression "condition" test
  needExpression "consequent" whenTrue
  needExpression "alternate" otherwise
  return .ternary test whenTrue otherwise

/-- One access after the other: `a.b.c` is `(a.b).c`. -/
def propertyOf (object : Node) (keys : List Node) : Built Node := do
  if keys.isEmpty then throw .emptyAccess
  needExpression "object" object
  keys.foldlM (fun object key => do
    needExpression "property" key
    return .property object key) object

/-- Access by name; a name that is no identifier stands in brackets. -/
def member (object : Node) (name : String) : Built Node :=
  propertyOf object [if isIdentifierName name then .identifier name else .string name]

/-- A dotted path such as `root.App.Model`. -/
def path : List String → Built Node
  | [] => .error .emptyPath
  | first :: rest => do rest.foldlM member (← ident first)

def call (callee : Node) (args : List Node) : Built Node := do
  needExpression "callee" callee
  args.forM (needExpression "argument")
  return .call callee args

def methodCall (object : Node) (name : String) (args : List Node) : Built Node := do
  call (← member object name) args

def new (cls : Node) (args : List Node) : Built Node := do
  needExpression "constructor" cls
  args.forM (needExpression "argument")
  return .new cls args

def block (stmts : List Node) : Built Node :=
  match stmts.find? (!·.isStatement) with
  | some n => .error (.notStatement n.tag)
  | none => .ok (.block stmts)

def function (params stmts : List Node) : Built Node :=
  match params.find? (!·.isIdentifier) with
  | some n => .error (.notParameter n.tag)
  | none => do return .function params (← block stmts)

/-- Checks the fields one by one; `seen` holds the keys before them. -/
def needFields (seen : List String) : List Field → Built Unit
  | [] => .ok ()
  | f :: fs => do
    if seen.contains f.key then throw (.duplicateKey f.key)
    needExpression "object field" f.value
    needFields (f.key :: seen) fs

def object (fields : List Field) : Built Node := do
  needFields [] fields
  return .object fields

/-! ## Statements -/

def statement (expr : Node) : Built Node := do
  needExpression "statement expression" expr
  return .statement expr

def ret (value : Option Node) : Built Node := do
  value.forM (needExpression "return value")
  return .ret value

/-- The else part is a block or another branch. -/
def branch (test : Node) (body : List Node) (otherwise : Option Node) : Built Node := do
  needExpression "condition" test
  otherwise.forM fun n => unless n.isBlock || n.isBranch do throw (.elseBranch n.tag)
  return .branch test (← block body) otherwise

def whileLoop (test : Node) (body : List Node) : Built Node := do
  needExpression "condition" test
  return .whileLoop test (← block body)

def forLoop (init test step : Option Node) (body : List Node) : Built Node := do
  (init.toList ++ test.toList ++ step.toList).forM (needExpression "loop header")
  return .forLoop init test step (← block body)

/-- At least one of the handler and the cleanup is there. -/
def tryCatch (body : List Node) (handler : Option (String × List Node))
    (cleanup : Option (List Node)) : Built Node := do
  if handler.isNone && cleanup.isNone then throw .bareTry
  let handler ← handler.mapM fun (binding, stmts) => do
    unless isIdentifierName binding do throw (.notBinding binding)
    return (⟨binding, ← block stmts⟩ : Handler)
  let body ← block body
  return .tryCatch body handler (← cleanup.mapM block)

def throwValue (value : Node) : Built Node := do
  needExpression "thrown value" value
  return .throwValue value

end ClassScript.Script
