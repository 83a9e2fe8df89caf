import ClassScript.Diagnostic
/-!
# Why a file cannot be simplified
-/

namespace ClassScript.Simplify

inductive Cause where
  | selfOutsideClass
  /-- The class that has no parent; `none` outside of a class. -/
  | parentless (cls : Option String)
  | referenceItem
  | unpackedItem
  | readWithoutIndex
  | foreachByReference
  | foreachBinding
  | foreachReturn
deriving DecidableEq, Repr

def Cause.message : Cause → String
  | selfOutsideClass => "self:: used outside of a class"
  | parentless cls =>
    "parent:: used in " ++ cls.getD "code outside a class" ++ " which has no parent class"
  | referenceItem => "by-reference array items are not supported"
  | unpackedItem => "array unpacking is not supported"
  | readWithoutIndex => "cannot use [] for reading"
  | foreachByReference => "foreach by reference is not supported"
  | foreachBinding => "foreach bindings must be plain variables"
  | foreachReturn => "return inside foreach is not supported"

structure Fault where
  cause : Cause
  pos : Position
deriving DecidableEq, Repr

/-- Every such file is outside of the supported subset. -/
def Fault.diagnostic (f : Fault) : Diagnostic :=
  { kind := .unsupported, message := f.cause.message, pos := f.pos }

end ClassScript.Simplify
