import ClassScript.Emit.Fault
import ClassScript.Emit.Identifier
import ClassScript.Registry.Hierarchy
/-!
# Emission

What an expression or statement is emitted as depends on the declarations the program knows and on
the function around it. A function collects the variables that are declared in the middle of an
expression; they are declared at its start.
-/

namespace ClassScript.Emit

open Script

/-- What the code of a declaration may refer to. -/
structure Context where
  registry : Registry
  /-- The class whose constants the local table holds, if there is one. -/
  constantsOwner : Option String

/-- The function around a place. -/
structure Frame where
  isConstructor : Bool
  /-- The variables to declare at the start, in the order they came up. -/
  hoisted : List String := []

/-- What is emitted for a piece of code; there is no frame outside of functions. -/
abbrev Emission := StateT (Option Frame) Result

/-- The emission at a position: a diagnostic that has no place yet gets this one. -/
def located {α : Type} (pos : Position) (act : Emission α) : Emission α := fun frame =>
  (act.run frame).mapError (·.orPlaced pos)

/-- Fails for the given cause. -/
def fail {α : Type} (fault : Fault) : Emission α := throw fault.diagnostic

/-- Fails for the given cause at a position. -/
def failAt {α : Type} (fault : Fault) (pos : Position) : Emission α :=
  throw (fault.diagnostic.placed pos)

/-! ## Names that emitted code uses -/

/-- The object that holds the members of a visibility. -/
def bucket : Visibility → String
  | .pub => "__public"
  | .prot => "__protected"
  | .priv => "__private"

def publicBucket : String := bucket .pub

/-- The table of the constants of the class around a place. -/
def constantsName : String := "constants"

/-- The key of the table of constants of a declaration. -/
def constantsKey : String := "__constants"

/-- The function that copies the entries of objects into a new one. -/
def copyName : String := "__copy"

/-- The function that tells whether a value has a class, and the member that answers for an object. -/
def instanceCheckName : String := "__instanceOf"

/-- The variable that holds a caught value. -/
def exceptionName : String := "__exception"

/-- The visibility that a pass has resolved for something described by `what`. -/
def resolvedVisibility (v : Option Visibility) (what : String) : Emission Visibility :=
  match v with
  | some v => return v
  | none => fail (.unresolvedVisibility what)

/-! ## Functions -/

/-- Notes a variable to be declared at the start of the function. -/
def hoist (name : String) : Emission Unit := do
  match ← get with
  | none => fail .assignmentOutsideFunction
  | some frame =>
    unless frame.hoisted.contains name do
      set (some { frame with hoisted := frame.hoisted ++ [name] })

/-- The function with the given parameters and statements, which are emitted in a frame of their own.
A constructor ends by returning its object. -/
def functionOf (isConstructor : Bool) (parts : Emission (List Node × List Node)) : Emission Node := do
  let outer ← get
  set (some ({ isConstructor } : Frame))
  let (params, stmts) ← parts
  let hoisted := ((← get).map Frame.hoisted).getD []
  set outer
  let ending ← if isConstructor then do pure [← ret (some (← ident publicBucket))] else pure []
  let declared ← hoisted.mapM (declare · none)
  function params (declared ++ stmts ++ ending)

/-- The variable that an assignment declares. -/
def declared? (target : Expr) (declares : Option Bool) : Emission (Option String) :=
  match target with
  | .variable _ n false =>
    if n == "this" then return none
    else match declares with
      | some d => return if d then some (mangle n) else none
      | none => fail (.unmarkedAssignment n)
  | _ => return none

end ClassScript.Emit
