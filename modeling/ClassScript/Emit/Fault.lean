import ClassScript.Diagnostic
/-!
# Why a declaration has no emitted form
-/

namespace ClassScript.Emit

inductive Fault where
  | arity (function expected : String) (given : Nat)
  | undefinedFunction (name : String)
  | variableFunction
  | undefinedConstant (name : String)
  | undefinedClassConstant (owner name : String)
  | unknownClass (name : String)
  | instantiatedInterface (name : String)
  | unknownParent (name parent : String)
  | unknownParentInterface (name parent : String)
  | traits
  | magicMethod (cls method : String)
  | abstractMethod (cls method : String)
  | interfaceProperty (interface property : String)
  | severalConditions
  | nestedDeclaration
  | assignTarget
  | dynamicThisAccess
  | construct
  /-- The rest is left over only by passes that did not run. -/
  | unresolvedVisibility (what : String)
  | unmarkedAssignment (name : String)
  | assignmentOutsideFunction
  | foreachLeft
  | unsimplified
  | unresolvedClass
deriving DecidableEq, Repr

namespace Fault

def kind : Fault → Diagnostic.Kind
  | undefinedFunction _ | undefinedConstant _ | undefinedClassConstant .. | unknownClass _
  | instantiatedInterface _ | unknownParent .. | unknownParentInterface .. => .unknownIdentifier
  | unresolvedVisibility _ | unmarkedAssignment _ | assignmentOutsideFunction | foreachLeft
  | unsimplified | unresolvedClass => .internal
  | _ => .unsupported

def message : Fault → String
  | arity function expected given =>
    function ++ "() expects " ++ expected ++ " arguments, " ++ toString given ++ " given"
  | undefinedFunction name => "call to undefined function " ++ name ++ "()"
  | variableFunction => "variable function calls are not supported"
  | undefinedConstant name => "undefined constant " ++ name
  | undefinedClassConstant owner name => "undefined constant " ++ owner ++ "::" ++ name
  | unknownClass name => "unknown class " ++ name
  | instantiatedInterface name => "cannot instantiate interface " ++ name
  | unknownParent name parent => name ++ " extends unknown class " ++ parent
  | unknownParentInterface name parent => name ++ " extends unknown interface " ++ parent
  | traits => "traits are not supported"
  | magicMethod cls method => "magic method " ++ cls ++ "::" ++ method ++ " is not supported"
  | abstractMethod cls method => "abstract method " ++ cls ++ "::" ++ method ++ "() is not supported"
  | interfaceProperty interface property =>
    "interface " ++ interface ++ " cannot declare property $" ++ property
  | severalConditions => "for loops with more than one condition are not supported"
  | nestedDeclaration => "declarations are only allowed at file level"
  | assignTarget => "cannot assign to this expression"
  | dynamicThisAccess => "cannot compile access to this with variable expression"
  | construct => "construct is not supported"
  | unresolvedVisibility what => what ++ " has no resolved visibility"
  | unmarkedAssignment name => "assignment to $" ++ name ++ " was not annotated"
  | assignmentOutsideFunction => "assignment outside of a function body"
  | foreachLeft => "foreach reached code generation without being rewritten"
  | unsimplified =>
    "arrays, compound assignments and static access must be rewritten before code generation"
  | unresolvedClass => "class reference was not resolved to a name"

def diagnostic (f : Fault) : Diagnostic := { kind := f.kind, message := f.message }

end Fault

end ClassScript.Emit
