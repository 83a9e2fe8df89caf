import ClassScript.Diagnostic
import ClassScript.Tree.Part
/-!
# The supported subset

A file is in the subset if it holds only declarations at file level and no part of it is of a kind
that has no emitted form. `violation?` gives the first fault: those at file level come first, then
the parts in source order, each before the parts below it.
-/

namespace ClassScript

namespace Subset

inductive Cause where
  | fileLevelFunction (name : String)
  | fileLevelCode
  | traits (cls : String)
  | abstractMethod (cls method : String)
  | staticMember (cls member : String)
  | repeatedMember (cls member : String)
  | referenceParam (name : String)
  | promotedParam (name : String)
  | variadicDefault (name : String)
  | referenceReturn (method : String)
  | referenceCapture (name : String)
  | referenceClosure
  | variableVariable
  | anonymousClass
  | variableFunction
  | staticMethod
  | staticProperty (name : String)
  | variableClass
  | lateStaticBinding
  | variableMember
  | unpacking
deriving DecidableEq, Repr

def Cause.message : Cause → String
  | fileLevelFunction name => "function declarations are not supported (" ++ name ++ ")"
  | fileLevelCode =>
    "only namespaces, use statements, classes and interfaces may appear at file level"
  | traits cls => "traits are not supported (class " ++ cls ++ ")"
  | abstractMethod cls method => "abstract method " ++ cls ++ "::" ++ method ++ "() is not supported"
  | staticMember cls member => "static members are not supported (" ++ cls ++ "::" ++ member ++ ")"
  | repeatedMember cls member =>
    "member name " ++ cls ++ "::" ++ member
      ++ " is declared more than once; properties, constants and methods share one namespace"
  | referenceParam name => "by-reference parameter $" ++ name ++ " is not supported"
  | promotedParam name => "constructor promotion of $" ++ name ++ " is not supported"
  | variadicDefault name => "variadic parameter $" ++ name ++ " cannot have a default"
  | referenceReturn method => "by-reference return from " ++ method ++ " is not supported"
  | referenceCapture name => "by-reference capture of $" ++ name ++ " is not supported"
  | referenceClosure => "by-reference closures are not supported"
  | variableVariable => "variable variables are not supported"
  | anonymousClass => "anonymous classes are not supported"
  | variableFunction => "variable function calls are not supported"
  | staticMethod => "static methods are not supported"
  | staticProperty name => "static property $" ++ name ++ " is not supported"
  | variableClass => "variable class references are not supported"
  | lateStaticBinding => "late static binding (static::) is not supported"
  | variableMember => "variable member names are not supported"
  | unpacking => "argument unpacking is not supported"

def Cause.hints : Cause → List String
  | fileLevelCode => ["move the code into a method of a class"]
  | _ => []

/-- A cause and where it shows; captures and closures have no position of their own. -/
structure Violation where
  cause : Cause
  pos : Position := .unknown
deriving DecidableEq, Repr

def Violation.diagnostic (v : Violation) : Diagnostic :=
  { kind := .unsupported, message := v.cause.message, pos := v.pos, hints := v.cause.hints }

/-! ## File level -/

mutual

/-- The first statement at file level that is no declaration. -/
def fileLevel? : Stmt → Option Violation
  | .nsBlock _ _ body _ => firstFileLevel? body
  | .imports .. | .classDecl _ | .interfaceDecl _ | .nop _ => none
  | .functionDecl pos name => some ⟨.fileLevelFunction name, pos⟩
  | s => some ⟨.fileLevelCode, s.pos⟩

def firstFileLevel? : List Stmt → Option Violation
  | [] => none
  | s :: rest => (fileLevel? s).or (firstFileLevel? rest)

end

/-! ## Declarations -/

def param? (p : Param) : Option Violation :=
  if p.byRef then some ⟨.referenceParam p.name, p.pos⟩
  else if p.promoted then some ⟨.promotedParam p.name, p.pos⟩
  else if p.variadic && p.default.isSome then some ⟨.variadicDefault p.name, p.pos⟩
  else none

def method? (m : Method) : Option Violation :=
  (m.params.findSome? param?).or
    (if m.byRefReturn then some ⟨.referenceReturn m.name, m.pos⟩ else none)

def closure? (c : Closure) : Option Violation :=
  (c.params.findSome? param?).or
    (((c.captures.find? (·.byRef)).map fun u => ⟨.referenceCapture u.name, .unknown⟩).or
      (if c.byRefReturn then some ⟨.referenceClosure, .unknown⟩ else none))

/-- Whether the name of a member has to differ from the others: all do but a constructor's. -/
def isNamed : Member → Bool
  | .method m => !m.isConstructor
  | .traitUse _ => false
  | _ => true

def memberPos (c : Class) : Member → Position
  | .property d => d.pos
  | .const d => d.pos
  | .method d => d.pos
  | .traitUse _ => c.pos

/-- The first fault in a list of members; `seen` holds the names before them in small letters. -/
def members? (c : Class) (seen : List String) : List Member → Option Violation
  | [] => none
  | m :: rest =>
    let name := m.name?.getD ""
    let here : Option Cause := match m with
      | .traitUse _ => some (.traits c.name)
      | .method d =>
        if d.modifiers.isAbstract || d.body.isNone then some (.abstractMethod c.name name)
        else if d.modifiers.isStatic then some (.staticMember c.name name)
        else none
      | .property d => if d.modifiers.isStatic then some (.staticMember c.name name) else none
      | .const _ => none
    match here with
    | some cause => some ⟨cause, memberPos c m⟩
    | none =>
      if isNamed m then
        if seen.contains (lower name) then some ⟨.repeatedMember c.name name, memberPos c m⟩
        else members? c (lower name :: seen) rest
      else members? c seen rest

/-! ## Expressions -/

def classRef? : ClassRef → Option Cause
  | .dynamic _ => some .variableClass
  | .static => some .lateStaticBinding
  | _ => none

/-- Only the name of a member of `$this` may be computed here; a later stage refuses that one. -/
def memberName? (object : Expr) : MemberName → Option Cause
  | .dynamic _ => if object.isThis then none else some .variableMember
  | .ident _ => none

def args? (args : List Arg) : Option Cause :=
  if args.any (·.unpack) then some .unpacking else none

def isParent : ClassRef → Bool
  | .parent => true
  | _ => false

/-- What is wrong with an expression itself. -/
def exprCause? : Expr → Option Cause
  | .dynamicVariable .. => some .variableVariable
  | .anonymousClass _ => some .anonymousClass
  | .call _ (.dynamic _) _ => some .variableFunction
  | .call _ (.named _) as => args? as
  | .staticCall _ c _ as => if isParent c then args? as else some .staticMethod
  | .staticProperty _ c n => if isParent c then none else some (.staticProperty n)
  | .classConst _ c _ => classRef? c
  | .instanceOf _ _ c => classRef? c
  | .new _ c as => (classRef? c).or (args? as)
  | .property _ o n _ => memberName? o n
  | .methodCall _ o n as _ => (memberName? o n).or (args? as)
  | _ => none

/-! ## Parts and files -/

/-- What is wrong with a part itself, whatever stands below it. -/
def part? : Part → Option Violation
  | .expr e => (exprCause? e).map (⟨·, e.pos⟩)
  | .closure c => closure? c
  | .method m => method? m
  | .cls c => members? c [] c.members
  | _ => none

end Subset

/-- The first fault of a file. -/
def SourceFile.violation? (f : SourceFile) : Option Subset.Violation :=
  (Subset.firstFileLevel? f.stmts).or (f.parts.findSome? Subset.part?)

end ClassScript
