import ClassScript.Diagnostic
/-!
# Why a node cannot be made or printed

A node is named by its tag.
-/

namespace ClassScript.Script

inductive Fault where
  | notExpression (role found : String)
  | notIdentifier (name : String)
  | notVariable (name : String)
  | notBinding (name : String)
  | notAssignable (found : String)
  | unknownBinary (symbol : String)
  | unknownUnary (symbol : String)
  | emptyChain (symbol : String)
  | emptyAccess
  | emptyPath
  | notParameter (found : String)
  | duplicateKey (key : String)
  | notStatement (found : String)
  | elseBranch (found : String)
  | bareTry
  /-- A node to be printed has a body that is no block. -/
  | malformedBody (owner found : String)
  /-- A node to be printed has an else branch that is neither a block nor another branch. -/
  | malformedElse (found : String)
deriving DecidableEq, Repr

namespace Fault

def message : Fault → String
  | notExpression role found => role ++ " must be an expression, got " ++ found
  | notIdentifier name => "'" ++ name ++ "' is not a valid identifier"
  | notVariable name => "'" ++ name ++ "' is not a valid variable name"
  | notBinding name => "'" ++ name ++ "' is not a valid catch binding"
  | notAssignable found => "cannot assign to " ++ found
  | unknownBinary symbol => "unknown binary operator '" ++ symbol ++ "'"
  | unknownUnary symbol => "unknown unary operator '" ++ symbol ++ "'"
  | emptyChain symbol => "'" ++ symbol ++ "' needs at least one operand"
  | emptyAccess => "property access needs at least one property"
  | emptyPath => "empty member path"
  | notParameter found => "function parameters must be identifiers, got " ++ found
  | duplicateKey key => "duplicate object key '" ++ key ++ "'"
  | notStatement found => "block entries must be statements, got " ++ found
  | elseBranch found => "else branch must be a block or if, got " ++ found
  | bareTry => "try needs a catch clause or a finalizer"
  | malformedBody owner found => "malformed " ++ owner ++ ": body is " ++ found ++ ", expected Block"
  | malformedElse found => "malformed If: else branch is " ++ found

def kind : Fault → Diagnostic.Kind
  | malformedBody .. | malformedElse _ => .internal
  | _ => .invalidArgument

def diagnostic (f : Fault) : Diagnostic := { kind := f.kind, message := f.message }

end Fault

abbrev Built := Except Fault

instance : MonadLift Built Result := ⟨Except.mapError Fault.diagnostic⟩

end ClassScript.Script
