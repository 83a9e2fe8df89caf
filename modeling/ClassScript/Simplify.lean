import ClassScript.Simplify.Arrays
import ClassScript.Simplify.Guard
import ClassScript.Simplify.Initialise
import ClassScript.Simplify.Names
import ClassScript.Simplify.Owner
/-!
# Simplification

The passes that bring a file into the form that is emitted, in their order. Each relies on what the
passes before it leave.
-/

namespace ClassScript

/-- How a file is simplified: with guards for parameter types, or without them as befits the sources
of the library. -/
inductive Pipeline where
  | full
  | reduced
deriving DecidableEq, Repr

namespace Simplify

/-! ## Compound assignments

`$x op= v` is `$x = $x op v`, and a step up or down adds or takes one, before or after. -/

def stepOp : StepOp → BinaryOp
  | .preInc | .postInc => .add
  | .preDec | .postDec => .sub

/-- A compound assignment or step in terms of plain assignment. -/
def plainAssign : Expr → Expr
  | .assignOp p op t v => .assign p t (.binary p op t v) none
  | .step p op t => .assign p t (.binary p (stepOp op) t (.int p 1)) none
  | e => e

/-- The pass that leaves only plain assignments. -/
def compound : Pass Id where
  expr _ below := plainAssign below

/-! ## All passes -/

/-- The passes up to the parameter types, which see all types. -/
def resolved (stmts : List Stmt) : Except Fault (List Stmt) := do
  let stmts := (resolveNames stmts).1
  let stmts := stmtsThrough (m := Id) imports stmts
  let stmts ← (stmtsThrough owners stmts).run {}
  return stmtsThrough (m := Id) compound stmts

/-- The pass for the parameter types. -/
def types (pipeline : Pipeline) (scriptInterface : String) (stmts : List Stmt) : List Stmt :=
  match pipeline with
  | .full => (stmtsThrough (typeGuards scriptInterface) stmts).run {}
  | .reduced => stmtsThrough (m := Id) typeless stmts

def statements (pipeline : Pipeline) (scriptInterface : String) (stmts : List Stmt) :
    Except Fault (List Stmt) := do
  let stmts ← resolved stmts
  let stmts ← stmtsThrough arrays (types pipeline scriptInterface stmts)
  return stmtsThrough (m := Id) initialisers stmts

end Simplify

/-- The simplified file; a diagnostic names the file. -/
def SourceFile.simplify (pipeline : Pipeline) (scriptInterface : String) (f : SourceFile) :
    Result SourceFile :=
  match Simplify.statements pipeline scriptInterface f.stmts with
  | .ok stmts => .ok { f with stmts }
  | .error fault => .error (fault.diagnostic.inFile f.path)

end ClassScript
