import ClassScript.Simplify.Fault
import ClassScript.Tree.Pass
/-!
# Resolving `self` and `parent`

`self` is the class or interface around it and `parent` the class that it extends. A member of the
parent is a member of `__parent`, which holds the members that the class inherits.
-/

namespace ClassScript.Simplify

/-- The class around a place, and its parent. -/
structure Owner where
  cls : Option String := none
  parent : Option String := none

namespace Owner

def self (o : Owner) (pos : Position) : Except Fault ClassRef :=
  match o.cls with
  | some c => .ok (.named (.global c))
  | none => .error ⟨.selfOutsideClass, pos⟩

def parentRef (o : Owner) (pos : Position) : Except Fault ClassRef :=
  match o.parent with
  | some c => .ok (.named (.global c))
  | none => .error ⟨.parentless o.cls, pos⟩

def resolve (o : Owner) (pos : Position) : ClassRef → Except Fault ClassRef
  | .self => o.self pos
  | .parent => o.parentRef pos
  | c => .ok c

/-- The expression with its own reference to a class resolved. -/
def resolveExpr (o : Owner) : Expr → Except Fault Expr
  | .staticCall p .parent n as => do
    discard (o.parentRef p)
    return .methodCall p (.madeUp p parentBinding) n as none
  | .staticProperty p .parent n => do
    discard (o.parentRef p)
    return .property p (.madeUp p parentBinding) (.ident n) none
  | .staticCall p c n as => do return .staticCall p (← o.resolve p c) n as
  | .staticProperty p c n => do return .staticProperty p (← o.resolve p c) n
  | .classConst p c n => do return .classConst p (← o.resolve p c) n
  | .new p c as => do return .new p (← o.resolve p c) as
  | .instanceOf p e c => do return .instanceOf p e (← o.resolve p c)
  | e => return e

end Owner

/-- The pass that resolves `self` and `parent`. -/
def owners : Pass (ReaderT Owner (Except Fault)) where
  expr _ below := do
    let e ← below
    (← read).resolveExpr e
  cls c below := withReader (fun _ => ⟨some c.qualifiedName, c.parent.map Name.joined⟩) below
  iface i below := withReader (fun _ => ⟨some i.qualifiedName, none⟩) below

end ClassScript.Simplify
