import ClassScript.Emit.Reference
import ClassScript.Tree.Part
/-!
# Expressions and statements

Operands are emitted in source order, with two exceptions: the last part of a conditional expression
comes before its middle part, and an assigned value before its target.
-/

namespace ClassScript.Emit

open Script

/-! ## Operators -/

def binaryNode (op : BinaryOp) (left right : Node) : Built Node :=
  match op with
  | .concat => methodCall left "concat" [right]
  | .pow => do call (← path ["Math", "pow"]) [left, right]
  | .identical => do call (← ident "__identical") [left, right]
  | .notIdentical => do negate (← call (← ident "__identical") [left, right])
  | .xor => do binary "!==" (← negate left) (← negate right)
  | op => binary op.symbol left right

def unarySymbol : UnaryOp → String
  | .not => "!"
  | .neg => "-"
  | .plus => "+"
  | .bitNot => "~"

/-! ## Variables and members -/

def variableNode (name : String) (synthetic : Bool) : Built Node :=
  if name == "this" then ident publicBucket
  else if synthetic then ident name
  else ident (mangle name)

/-- A member of `$this`, in its bucket; `none` for other objects. -/
def thisMember? (object : Expr) (name : MemberName) (visibility : Option Visibility)
    (pos : Position) : Option (Emission Node) :=
  if object.isThis then
    some (match name with
      | .ident n => do
        let v ← resolvedVisibility visibility ("$this->" ++ n)
        member (← ident (bucket v)) n
      | .dynamic _ => failAt .dynamicThisAccess pos)
  else none

/-- Whether an assignment to the expression has an emitted form. -/
def isTarget : Expr → Bool
  | .variable .. | .property .. => true
  | _ => false

/-- The assignment of an emitted value to a target, given with its emission. -/
def store (target : Expr) (emitted : Emission Node) (value : Node) : Emission Node :=
  if isTarget target then do assign (← emitted) value
  else failAt .assignTarget target.pos

/-! ## Branches -/

/-- A chain of tests with their bodies; the first test that holds counts, else the end of the chain. -/
def branches : List (Node × List Node) → Option Node → Built (Option Node)
  | [], ending => return ending
  | (test, body) :: rest, ending => do return some (← branch test body (← branches rest ending))

/-- The handler for catch clauses, given by tests and bodies: a value that no clause takes is thrown
again. -/
def handlerOf (clauses : List (Node × List Node)) : Built (List Node) := do
  let rethrow ← block [← throwValue (← ident exceptionName)]
  return (← branches clauses (some rethrow)).toList

/-- The tests whether a caught value has one of the given types. -/
def catchTests (types : List Name) : Built (List Node) :=
  types.mapM fun t => do instanceCheck (← ident exceptionName) t

/-- The declaration of the variable of a catch clause, if it has one. -/
def catchBinding (var : String) : Built (List Node) := do
  if var.isEmpty then return []
  return [← declare (mangle var) (some (← ident exceptionName))]

/-- The expressions of a loop header, one after the other; `none` if there are none. -/
def sequence : List Node → Built (Option Node)
  | [] => return none
  | ns => do return some (← chain "," ns)

/-! ## Parameters -/

/-- The array of the arguments from an index on. -/
def restArguments (index : Nat) : Built Node := do
  let slice ← call (← path ["Array", "prototype", "slice", "call"]) [← ident "arguments", .int index]
  call (← ident "__toPhpArray") [slice]

/-- The statement that gives a parameter its default. -/
def defaultStatement (name : String) (value : Node) : Built Node := do
  branch (← binary "===" (← ident name) undefined) [← statement (← assign (← ident name) value)] none

mutual

variable (ctx : Context)

/-- What an expression is emitted as. -/
def emitExpr (e : Expr) : Emission Node := located e.pos (match e with
  | .variable _ n synthetic => variableNode n synthetic
  | .int _ v => return .int v
  | .float _ v => return .float v
  | .string _ v => return .string v
  | .bool _ v => return boolean v
  | .null _ => return null
  | .property pos o n v => match thisMember? o n v pos with
    | some node => node
    | none => do emitMember (← emitExpr o) n
  | .methodCall pos o n as v => do
    let callee ← match thisMember? o n v pos with
      | some node => node
      | none => do emitMember (← emitExpr o) n
    call callee (← emitArgs as)
  | .classConst _ c n => classConstant ctx c n
  | .const _ n => constantValue n
  | .call _ c as => match c with
    | .named n => do functionCall n (← emitArgs as)
    | .dynamic _ => fail .variableFunction
  | .new _ c as => do
    let n ← namedClass c
    instantiation ctx n (← emitArgs as)
  | .assign _ t v declares => do
    let v ← emitExpr v
    match ← declared? t declares with
    | some n => do
      hoist n
      assign (← ident n) v
    | none => store t (emitExpr t) v
  | .binary _ op l r => do
    let l ← emitExpr l
    binaryNode op l (← emitExpr r)
  | .unary _ op x => do unary (unarySymbol op) (← emitExpr x)
  | .ternary _ c t o => do
    let c ← emitExpr c
    let o ← emitExpr o
    match t with
    | some t => do ternary c (← emitExpr t) o
    | none => chain "||" [c, o]
  | .instanceOf _ v c => do
    let n ← namedClass c
    instanceCheck (← emitExpr v) n
  | .cast _ t x => do Builtin.convert t (← emitExpr x)
  | .isset _ es => do
    let checks ← (← emitExprs es).mapM fun x => do call (← ident "__isset") [x]
    chain "&&" checks
  | .closure _ c => emitClosure c
  | .array .. | .index .. | .assignOp .. | .step .. | .staticCall .. | .staticProperty .. =>
    fail .unsimplified
  | .dynamicVariable .. | .anonymousClass _ => fail .construct)

/-- A member of an emitted object. -/
def emitMember (object : Node) : MemberName → Emission Node
  | .ident n => member object n
  | .dynamic e => do propertyOf object [← emitExpr e]

def emitExprs : List Expr → Emission (List Node)
  | [] => return []
  | e :: rest => do
    let e ← emitExpr e
    return e :: (← emitExprs rest)

def emitArgs : List Arg → Emission (List Node)
  | [] => return []
  | ⟨v, _⟩ :: rest => do
    let v ← emitExpr v
    return v :: (← emitArgs rest)

def emitClosure : Closure → Emission Node
  | ⟨params, _, body, _, _, _⟩ => functionOf false (do
      let (params, defaults) ← emitParams 0 params
      return (params, defaults ++ (← emitStmts body)))

/-- The parameters from an index on, and the statements that complete them. -/
def emitParams (index : Nat) : List Param → Emission (List Node × List Node)
  | [] => return ([], [])
  | ⟨name, _, _, _, true, _, _⟩ :: rest => do
    let stmt ← declare (mangle name) (some (← restArguments index))
    let (params, stmts) ← emitParams (index + 1) rest
    return (params, stmt :: stmts)
  | ⟨name, _, default, _, false, _, _⟩ :: rest => do
    let param ← ident (mangle name)
    let completed ← emitDefault (mangle name) default
    let (params, stmts) ← emitParams (index + 1) rest
    return (param :: params, completed ++ stmts)

def emitDefault (name : String) : Option Expr → Emission (List Node)
  | none => return []
  | some e => do return [← defaultStatement name (← emitExpr e)]

def emitStmts : List Stmt → Emission (List Node)
  | [] => return []
  | s :: rest => do
    let s ← emitStmt s
    return s :: (← emitStmts rest)

/-- What a statement is emitted as. -/
def emitStmt (s : Stmt) : Emission Node := located s.pos (match s with
  | .expression (.assign _ t v declares) => do
    match ← declared? t declares with
    | some n => do declare n (some (← emitExpr v))
    | none => do statement (← store t (emitExpr t) (← emitExpr v))
  | .expression e => do statement (← emitExpr e)
  | .echo _ es => do statement (← call (← ident "__echo") (← emitExprs es))
  | .ret _ v => match v with
    | some e => do ret (some (← emitExpr e))
    | none => do
      if ((← get).map Frame.isConstructor).getD false then ret (some (← ident publicBucket))
      else ret none
  | .branch _ c t elseIfs o => do
    let c ← emitExpr c
    let t ← emitStmts t
    let elseIfs ← emitElseIfs elseIfs
    let ending ← match o with
      | some b => do pure (some (← block (← emitStmts b)))
      | none => pure none
    branch c t (← branches elseIfs ending)
  | .whileLoop _ c b => do
    let c ← emitExpr c
    whileLoop c (← emitStmts b)
  | .forLoop _ i c s b => do
    if c.length > 1 then fail .severalConditions
    let i ← emitExprs i
    let c ← emitExprs c
    let s ← emitExprs s
    forLoop (← sequence i) c.head? (← sequence s) (← emitStmts b)
  | .breakLoop _ => return .breakLoop
  | .continueLoop _ => return .continueLoop
  | .throwValue _ v => do throwValue (← emitExpr v)
  | .tryCatch _ b cs f => do
    let b ← emitStmts b
    let clauses ← emitCatches cs
    let handler ← if clauses.isEmpty then pure none
      else do pure (some (exceptionName, ← handlerOf clauses))
    let cleanup ← match f with
      | some ss => do pure (some (← emitStmts ss))
      | none => pure none
    tryCatch b handler cleanup
  | .block _ b => do block (← emitStmts b)
  | .nop _ => return .nop
  | .foreach .. => fail .foreachLeft
  | .nsBlock .. | .imports .. | .classDecl _ | .interfaceDecl _ | .functionDecl .. =>
    fail .nestedDeclaration)

def emitElseIfs : List ElseIf → Emission (List (Node × List Node))
  | [] => return []
  | ⟨c, b⟩ :: rest => do
    let c ← emitExpr c
    let b ← emitStmts b
    return (c, b) :: (← emitElseIfs rest)

/-- The tests and bodies of catch clauses. -/
def emitCatches : List Catch → Emission (List (Node × List Node))
  | [] => return []
  | ⟨types, var, body, pos⟩ :: rest => do
    let tests ← catchTests types
    let binding ← catchBinding var
    let body ← emitStmts body
    let test ← located pos (chain "||" tests)
    return (test, binding ++ body) :: (← emitCatches rest)

end

end ClassScript.Emit
