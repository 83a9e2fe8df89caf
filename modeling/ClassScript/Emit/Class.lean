import ClassScript.Emit.Body
/-!
# Classes

A class is emitted as a function of its parent. The function gives an object with three parts: the
table of the constants, a factory of instances, and a way to extend the class.

An instance has no prototype chain. Each class of its ancestry, the oldest first, writes its members
into a public and a protected object that all of them share, so a later class overrides an earlier
one; the object for private members is made anew for each class.
-/

namespace ClassScript.Emit

open Script

variable (ctx : Context)

/-! ## Members -/

/-- The assignment of a member to its bucket. -/
def memberStatement (v : Visibility) (name : String) (value : Node) : Built Node := do
  statement (← assign (← member (← ident (bucket v)) name) value)

/-- A method as a function. -/
def emitFunction (m : Method) (body : List Stmt) : Emission Node :=
  located m.pos (functionOf m.isConstructor (do
    let (params, defaults) ← emitParams ctx 0 m.params
    return (params, defaults ++ (← emitStmts ctx body))))

/-- A method other than the constructor. Names that start with two underscores are reserved. -/
def emitMethod (cls : String) (m : Method) : Emission Node := do
  if ['_', '_'].isPrefixOf m.name.toList then failAt (.magicMethod cls m.name) m.pos
  match m.modifiers.isAbstract, m.body with
  | false, some body => do
    let v ← resolvedVisibility m.resolved (cls ++ "::" ++ m.name ++ "()")
    let function ← emitFunction ctx m body
    memberStatement v m.name function
  | _, _ => failAt (.abstractMethod cls m.name) m.pos

/-- A method is refused, or its body is emitted as a function. -/
theorem emitMethod_cases (cls : String) (m : Method) :
    emitMethod ctx cls m = failAt (.magicMethod cls m.name) m.pos ∨
    emitMethod ctx cls m = failAt (.abstractMethod cls m.name) m.pos ∨
    ∃ body, m.body = some body ∧ emitMethod ctx cls m = (do
      let v ← resolvedVisibility m.resolved (cls ++ "::" ++ m.name ++ "()")
      let function ← emitFunction ctx m body
      memberStatement v m.name function) := by
  unfold emitMethod
  by_cases hmagic : ['_', '_'].isPrefixOf m.name.toList = true
  · rw [if_pos hmagic]
    exact .inl rfl
  · rw [if_neg hmagic]
    split
    · next body _ hbody => exact .inr (.inr ⟨body, hbody, rfl⟩)
    · exact .inr (.inl rfl)

def emitProperty (cls : String) (p : Property) : Emission Node := do
  let v ← resolvedVisibility p.resolved (cls ++ "::$" ++ p.name)
  let value ← match p.default with
    | some e => located p.pos (emitExpr ctx e)
    | none => pure null
  memberStatement v p.name value

/-- The statements that a member of a class adds to each instance. -/
def emitInstanceMember (c : Class) : Member → Emission (List Node)
  | .method m => do
    if m.isConstructor then return []
    return [← emitMethod ctx c.qualifiedName m]
  | .property p => do return [← emitProperty ctx c.qualifiedName p]
  | .const _ => return []
  | .traitUse _ => failAt .traits c.pos

/-! ## Instances -/

/-- The objects that an instance starts with: the shared buckets, a private one, and a copy of what is
inherited. -/
def instanceStart : Built (List Node) := do
  let publicPart ← declare publicBucket (some (← path ["inherited", publicBucket]))
  let protectedPart ← declare (bucket .prot) (some (← path ["inherited", bucket .prot]))
  let privatePart ← declare (bucket .priv) (some (← object []))
  let inherited ← call (← ident copyName) [← ident (bucket .prot), ← ident publicBucket]
  let parent ← declare parentBinding (some inherited)
  let construct ← statement (← assign (← member (← ident parentBinding) constructorName)
    (← path ["inherited", "construct"]))
  return [publicPart, protectedPart, privatePart, parent, construct]

/-- The function that tells whether an instance has a class, by name: the class itself, what the parent
answers for, and the interfaces that the class lists. -/
def instanceHook (name : String) : Result Node := do
  let own ← binary "===" (← ident "name") (.string name)
  let parent ← methodCall (← ident parentBinding) instanceCheckName [← ident "name"]
  let interfaces ← (ctx.registry.declaredInterfaces name).mapError Registry.Fault.diagnostic
  let checks ← interfaces.mapM fun i => do binary "===" (← ident "name") (.string i)
  let answer ← chain "||" (own :: parent :: checks)
  function [← ident "name"] [← ret (some answer)]

/-- The constructor of a class that has none: that of its parent. -/
def inheritedConstructor : Built Node := do
  let parent ← methodCall (← path ["inherited", "construct"]) "apply" [null, ← ident "arguments"]
  function [] [← statement parent, ← ret (some (← ident publicBucket))]

/-- The constructor that counts if a class declares several. -/
def lastConstructor? (c : Class) : Option Method := (c.methods.filter Method.isConstructor).getLast?

def emitConstructor (c : Class) : Emission Node :=
  match lastConstructor? c with
  | some m => emitFunction ctx m (m.body.getD [])
  | none => inheritedConstructor

/-- The object that an instance is handed on as. -/
def instanceEnd : Built Node := do
  let parts ← object
    [⟨publicBucket, ← ident publicBucket⟩, ⟨bucket .prot, ← ident (bucket .prot)⟩,
      ⟨"construct", ← ident "construct"⟩]
  ret (some (← call (← ident "createClass") [parts]))

/-- The statements that make an instance. -/
def emitInstance (c : Class) : Emission (List Node) := do
  let start ← instanceStart
  let members ← c.members.mapM (emitInstanceMember ctx c)
  let hook ← memberStatement .pub instanceCheckName (← instanceHook ctx c.qualifiedName)
  let construct ← declare "construct" (some (← emitConstructor ctx c))
  return start ++ members.flatten ++ [hook, construct, ← instanceEnd]

/-! ## Constants -/

/-- The table of constants of a class, to start with: those of its parent and of its interfaces. -/
def constantsTable (name : String) : Result Node := do
  let parent ← member (← ident "parent") constantsKey
  let interfaces ← (ctx.registry.declaredInterfaces name).mapError Registry.Fault.diagnostic
  let tables ← (interfaces.filter fun i => (ctx.registry.interface? i).isSome).mapM
    fun i => constantsPath i
  declare constantsName (some (← call (← ident copyName) (parent :: tables)))

def emitConstant (c : Constant) : Emission Node := do
  let value ← located c.pos (emitExpr ctx c.value)
  statement (← assign (← member (← ident constantsName) c.name) value)

def emitClassConstants : List Member → Emission (List Node)
  | [] => return []
  | .const c :: rest => do
    let c ← emitConstant ctx c
    return c :: (← emitClassConstants rest)
  | _ :: rest => emitClassConstants rest

/-! ## Modules -/

/-- The function that extends the class by another level of members. -/
def extendFunction (instanceStmts : List Node) : Built Node := do
  let level ← function [← ident "inherited"] instanceStmts
  function [← ident "createClass"] [← ret (some (← methodCall (← ident "parent") "__extend" [level]))]

/-- The function that makes an instance and runs its constructor. -/
def factoryFunction : Built Node := do
  let instantiate ← function [← ident "instance"] [← ret (some (← path ["instance", "construct"]))]
  let extended ← call (← ident "extend") [instantiate]
  function [] [← ret (some (← methodCall extended "apply" [null, ← ident "arguments"]))]

/-- The object that stands for a class. -/
def moduleEnd : Built Node := do
  ret (some (← object
    [⟨"__extend", ← ident "extend"⟩, ⟨constructorName, ← factoryFunction⟩,
      ⟨constantsKey, ← ident constantsName⟩]))

/-- The function of the parent that gives a class. -/
def emitModule (c : Class) : Emission Node := do
  let stmts ← emitInstance ctx c
  let table ← constantsTable ctx c.qualifiedName
  let constants ← emitClassConstants ctx c.members
  let extend ← declare "extend" (some (← extendFunction stmts))
  function [← ident "parent"] (table :: constants ++ [extend, ← moduleEnd])

end ClassScript.Emit

namespace ClassScript

open Emit Script

/-- The class that all classes without a parent extend. -/
def baseClass : String := "__baseClass"

/-- The object that a class extends. -/
def Class.parentPath (registry : Registry) (c : Class) : Result Node :=
  match c.parent with
  | none => liftM (ident baseClass)
  | some p =>
    if (registry.class? p.joined).isSome then liftM (classPath p.joined)
    else .error ((Fault.unknownParent c.qualifiedName p.joined).diagnostic.placed c.pos)

/-- The statement that declares a class. -/
def Class.emit (registry : Registry) (c : Class) : Result Node := do
  let ctx : Context := { registry, constantsOwner := some c.qualifiedName }
  let module ← (located c.pos (emitModule ctx c)).run' none
  let parent ← c.parentPath registry
  statement (← assign (← classPath c.qualifiedName) (← call module [parent]))

end ClassScript
