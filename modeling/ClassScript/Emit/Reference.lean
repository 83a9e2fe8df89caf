import ClassScript.Emit.Builtin
import ClassScript.Emit.Emission
/-!
# References

What the names of classes, functions and constants are emitted as. A name in the namespace `JS` is
that of a global object of the host.
-/

namespace ClassScript.Emit

open Script

/-- The namespace of the host's own objects. -/
def nativeNamespace : String := "JS"

/-- The path of a host object. -/
def nativePath? (n : Name) : Option (Built Node) :=
  match n.parts with
  | first :: second :: rest =>
    if first == nativeNamespace then some (path (second :: rest)) else none
  | _ => none

/-- The name of a class that is referred to. -/
def namedClass : ClassRef → Emission Name
  | .named n => return n
  | _ => fail .unresolvedClass

/-- A test whether a value has a class. -/
def instanceCheck (value : Node) (cls : Name) : Built Node :=
  match nativePath? cls with
  | some native => do binary "instanceof" value (← native)
  | none => do call (← ident instanceCheckName) [value, .string cls.joined]

/-- The value of a constant. -/
def constantValue (n : Name) : Emission Node :=
  match nativePath? n with
  | some native => native
  | none => match Builtin.constant? n.joined with
    | some value => value
    | none => fail (.undefinedConstant n.joined)

/-- The call of a function by name. -/
def functionCall (n : Name) (args : List Node) : Emission Node :=
  match nativePath? n with
  | some native => do call (← native) args
  | none =>
    let function := n.joined
    if Builtin.inPrelude function && !Builtin.isBuiltin function then do
      call (← ident function) args
    else match Builtin.call? function args with
      | some node => node
      | none => fail (.undefinedFunction function)

/-- The path of the table of constants of a declaration. -/
def constantsPath (qualified : String) : Built Node := do
  member (← classPath qualified) constantsKey

variable (ctx : Context)

/-- A new instance of a class. -/
def instantiation (cls : Name) (args : List Node) : Emission Node :=
  match nativePath? cls with
  | some native => do new (← native) args
  | none =>
    let qualified := cls.joined
    if (ctx.registry.class? qualified).isSome then do
      call (← member (← classPath qualified) constructorName) args
    else if (ctx.registry.interface? qualified).isSome then fail (.instantiatedInterface qualified)
    else fail (.unknownClass qualified)

/-- The value of a constant of a class or interface; `class` is its name. -/
def classConstant (cls : ClassRef) (constant : String) : Emission Node := do
  let n ← namedClass cls
  if sameWord constant "class" then return .string n.joined
  match nativePath? n with
  | some native => member (← native) constant
  | none =>
    let qualified := n.joined
    unless ctx.registry.contains qualified do fail (.unknownClass qualified)
    unless ctx.registry.hasConstant qualified constant do
      fail (.undefinedClassConstant qualified constant)
    if ctx.constantsOwner == some qualified then member (← ident constantsName) constant
    else propertyOf (← constantsPath qualified) [← ident constant]

end ClassScript.Emit
