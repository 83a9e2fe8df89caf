import ClassScript.Emit.Body
/-!
# Interfaces

Of an interface only the constants are emitted: its table starts with those of the interfaces it
extends.
-/

namespace ClassScript.Emit

open Script

/-- The table of constants of an interface, to start with. -/
def interfaceTable (registry : Registry) (i : Interface) : Result Node := do
  let tables ← i.parents.mapM fun p =>
    if (registry.interface? p.joined).isSome then liftM (constantsPath p.joined)
    else Except.error ((Fault.unknownParentInterface i.qualifiedName p.joined).diagnostic.placed i.pos)
  call (← ident copyName) tables

/-- The statements for a member of an interface. -/
def emitInterfaceMember (ctx : Context) (i : Interface) : Member → Emission (List Node)
  | .const c => do
    let value ← located c.pos (emitExpr ctx c.value)
    let target ← propertyOf (← constantsPath i.qualifiedName) [← ident c.name]
    return [← statement (← assign target value)]
  | .method _ => return []
  | .property p => failAt (.interfaceProperty i.qualifiedName p.name) p.pos
  | .traitUse _ => failAt .traits i.pos

end ClassScript.Emit

namespace ClassScript

open Emit Script

/-- The statements that declare an interface. -/
def Interface.emit (registry : Registry) (i : Interface) : Result (List Node) := do
  let table ← interfaceTable registry i
  let start ← statement (← assign (← classPath i.qualifiedName)
    (← object [⟨constantsKey, table⟩]))
  let ctx : Context := { registry, constantsOwner := none }
  let members ← (i.members.mapM (emitInterfaceMember ctx i)).run' none
  return start :: members.flatten

end ClassScript
