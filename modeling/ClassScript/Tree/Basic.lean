import ClassScript.Name
import ClassScript.Text.Position
import ClassScript.Tree.Operator
/-!
# The source tree

A source file is a list of statements. Every piece of the tree has a position. A few pieces have a
place for what later passes find out: whether a variable was made up, whether an assignment
declares its variable, the bucket a member of `$this` lives in, the qualified name of a declaration,
the visibility of a member and the script APIs of a class. The grammar leaves these empty.
-/

namespace ClassScript

inductive Visibility where
  | pub
  | prot
  | priv
deriving DecidableEq, Repr, Inhabited

namespace Visibility

def word : Visibility → String
  | pub => "public"
  | prot => "protected"
  | priv => "private"

def ofWord? : String → Option Visibility
  | "public" => some pub
  | "protected" => some prot
  | "private" => some priv
  | _ => none

theorem ofWord?_word (v : Visibility) : ofWord? v.word = some v := by cases v <;> rfl

end Visibility

structure Modifiers where
  visibility : Option Visibility := none
  isStatic : Bool := false
  isAbstract : Bool := false
  isFinal : Bool := false
deriving DecidableEq, Repr, Inhabited

structure TypeHint where
  name : Name
  nullable : Bool
deriving DecidableEq, Repr, Inhabited

/-- A variable that a closure takes from its surroundings. -/
structure Capture where
  name : String
  byRef : Bool
deriving DecidableEq, Repr, Inhabited

/-- One name of a `use` statement. -/
structure Import where
  name : Name
  localWord : Option String
deriving DecidableEq, Repr, Inhabited

/-- The word that stands for the imported name. -/
def Import.localName (i : Import) : String := i.localWord.getD i.name.last

mutual

inductive Expr where
  | variable (pos : Position) (name : String) (synthetic : Bool)
  | dynamicVariable (pos : Position) (inner : Expr)
  | int (pos : Position) (value : Nat)
  | float (pos : Position) (value : Float)
  | string (pos : Position) (value : String)
  | bool (pos : Position) (value : Bool)
  | null (pos : Position)
  | array (pos : Position) (items : List ArrayItem)
  | index (pos : Position) (target : Expr) (dim : Option Expr)
  | property (pos : Position) (object : Expr) (name : MemberName) (bucket : Option Visibility)
  | methodCall (pos : Position) (object : Expr) (name : MemberName) (args : List Arg)
      (bucket : Option Visibility)
  | staticCall (pos : Position) (cls : ClassRef) (name : MemberName) (args : List Arg)
  | staticProperty (pos : Position) (cls : ClassRef) (name : String)
  | classConst (pos : Position) (cls : ClassRef) (name : String)
  | const (pos : Position) (name : Name)
  | call (pos : Position) (callee : Callee) (args : List Arg)
  | new (pos : Position) (cls : ClassRef) (args : List Arg)
  | anonymousClass (pos : Position)
  | assign (pos : Position) (target value : Expr) (declares : Option Bool)
  | assignOp (pos : Position) (op : BinaryOp) (target value : Expr)
  | step (pos : Position) (op : StepOp) (target : Expr)
  | binary (pos : Position) (op : BinaryOp) (left right : Expr)
  | unary (pos : Position) (op : UnaryOp) (operand : Expr)
  | ternary (pos : Position) (test : Expr) (whenTrue : Option Expr) (otherwise : Expr)
  | instanceOf (pos : Position) (value : Expr) (cls : ClassRef)
  | cast (pos : Position) (type : CastType) (operand : Expr)
  | isset (pos : Position) (exprs : List Expr)
  | closure (pos : Position) (fn : Closure)

inductive MemberName where
  | ident (name : String)
  | dynamic (expr : Expr)

inductive ClassRef where
  | named (name : Name)
  | self
  | parent
  | static
  | dynamic (expr : Expr)

inductive Callee where
  | named (name : Name)
  | dynamic (expr : Expr)

structure Arg where
  value : Expr
  unpack : Bool

structure ArrayItem where
  key : Option Expr
  value : Expr
  byRef : Bool
  unpack : Bool

/-- A parameter; `promoted` if modifiers stand before it. -/
structure Param where
  name : String
  type : Option TypeHint
  default : Option Expr
  byRef : Bool
  variadic : Bool
  promoted : Bool
  pos : Position

/-- A function expression. An iteration callback stands for the body of a loop, and its variables
are those of the function around it. -/
structure Closure where
  params : List Param
  captures : List Capture
  body : List Stmt
  byRefReturn : Bool
  isStatic : Bool
  isIteration : Bool

inductive Stmt where
  /-- The position is that of the expression. -/
  | expression (expr : Expr)
  | echo (pos : Position) (exprs : List Expr)
  | ret (pos : Position) (value : Option Expr)
  | branch (pos : Position) (test : Expr) (body : List Stmt) (elseIfs : List ElseIf)
      (otherwise : Option (List Stmt))
  | whileLoop (pos : Position) (test : Expr) (body : List Stmt)
  | forLoop (pos : Position) (init test step : List Expr) (body : List Stmt)
  | foreach (pos : Position) (subject : Expr) (key : Option Expr) (value : Expr) (byRef : Bool)
      (body : List Stmt)
  | breakLoop (pos : Position)
  | continueLoop (pos : Position)
  | throwValue (pos : Position) (value : Expr)
  | tryCatch (pos : Position) (body : List Stmt) (catches : List Catch) (cleanup : Option (List Stmt))
  | block (pos : Position) (body : List Stmt)
  | nsBlock (pos : Position) (name : Option Name) (body : List Stmt) (braced : Bool)
  | imports (pos : Position) (items : List Import)
  /-- The position is that of the class. -/
  | classDecl (decl : Class)
  /-- The position is that of the interface. -/
  | interfaceDecl (decl : Interface)
  | functionDecl (pos : Position) (name : String)
  | nop (pos : Position)

structure ElseIf where
  test : Expr
  body : List Stmt

structure Catch where
  types : List Name
  var : String
  body : List Stmt
  pos : Position

inductive Member where
  | property (decl : Property)
  | const (decl : Constant)
  | method (decl : Method)
  | traitUse (names : List Name)

structure Property where
  name : String
  default : Option Expr
  modifiers : Modifiers
  resolved : Option Visibility
  pos : Position

structure Constant where
  name : String
  value : Expr
  modifiers : Modifiers
  resolved : Option Visibility
  pos : Position

/-- A method; it has no body if it is abstract or stands in an interface. -/
structure Method where
  name : String
  params : List Param
  body : Option (List Stmt)
  byRefReturn : Bool
  modifiers : Modifiers
  resolved : Option Visibility
  pos : Position

structure Class where
  name : String
  parent : Option Name
  interfaces : List Name
  members : List Member
  isAbstract : Bool
  isFinal : Bool
  pos : Position
  qualified : Option String
  scriptApis : Option (List String)

structure Interface where
  name : String
  parents : List Name
  members : List Member
  pos : Position
  qualified : Option String

end

structure SourceFile where
  path : String
  stmts : List Stmt

namespace Expr

instance : Inhabited Expr := ⟨.null .unknown⟩

def pos : Expr → Position
  | .variable p .. | dynamicVariable p .. | int p .. | float p .. | string p .. | bool p ..
  | null p | array p .. | index p .. | property p .. | methodCall p .. | staticCall p ..
  | staticProperty p .. | classConst p .. | const p .. | call p .. | new p ..
  | anonymousClass p | assign p .. | assignOp p .. | step p .. | binary p .. | unary p ..
  | ternary p .. | instanceOf p .. | cast p .. | isset p .. | closure p .. => p

/-- The name of a plain variable. -/
def variableName? : Expr → Option String
  | .variable _ n _ => some n
  | _ => none

def isThis (e : Expr) : Bool := e.variableName? == some "this"

/-- A variable of the source text. -/
abbrev var (pos : Position) (name : String) : Expr := .variable pos name false

/-- A variable that a pass made up. -/
abbrev madeUp (pos : Position) (name : String) : Expr := .variable pos name true

end Expr

namespace Stmt

instance : Inhabited Stmt := ⟨.nop .unknown⟩

def pos : Stmt → Position
  | expression e => e.pos
  | classDecl c => c.pos
  | interfaceDecl i => i.pos
  | echo p .. | ret p .. | branch p .. | whileLoop p .. | forLoop p .. | foreach p ..
  | breakLoop p | continueLoop p | throwValue p .. | tryCatch p .. | block p .. | nsBlock p ..
  | imports p .. | functionDecl p .. | nop p => p

end Stmt

/-- The name of the method that constructs an instance. -/
def constructorName : String := "__construct"

/-- The made-up variable that holds what a class inherits from its parent. -/
def parentBinding : String := "__parent"

namespace Method

def isConstructor (m : Method) : Bool := sameWord m.name constructorName

end Method

namespace Member

def name? : Member → Option String
  | property d => some d.name
  | const d => some d.name
  | method d => some d.name
  | traitUse _ => none

def modifiers : Member → Modifiers
  | property d => d.modifiers
  | const d => d.modifiers
  | method d => d.modifiers
  | traitUse _ => {}

/-- The visibility that a pass resolved. -/
def resolved? : Member → Option Visibility
  | property d => d.resolved
  | const d => d.resolved
  | method d => d.resolved
  | traitUse _ => none

def method? : Member → Option Method
  | method d => some d
  | _ => none

def property? : Member → Option Property
  | property d => some d
  | _ => none

end Member

namespace Class

/-- The qualified name if the names are resolved, else the name as it is declared. -/
def qualifiedName (c : Class) : String := c.qualified.getD c.name

def methods (c : Class) : List Method := c.members.filterMap Member.method?

/-- Whether the class itself lists an interface. -/
def lists (c : Class) (interface : String) : Bool := c.interfaces.any (·.joined == interface)

def constructor? (c : Class) : Option Method := c.methods.find? Method.isConstructor

end Class

namespace Interface

@[inherit_doc Class.qualifiedName]
def qualifiedName (i : Interface) : String := i.qualified.getD i.name

end Interface

/-! ## Declarations of a file -/

mutual

/-- The classes and interfaces declared by a statement, itself or as a namespace. -/
def Stmt.declarations : Stmt → List (Class ⊕ Interface)
  | .classDecl c => [.inl c]
  | .interfaceDecl i => [.inr i]
  | .nsBlock _ _ body _ => declarationsOf body
  | _ => []

def declarationsOf : List Stmt → List (Class ⊕ Interface)
  | [] => []
  | s :: rest => s.declarations ++ declarationsOf rest

end

namespace SourceFile

/-- The classes at file level or in namespaces, in source order. -/
def classes (f : SourceFile) : List Class := (declarationsOf f.stmts).filterMap (·.getLeft?)

/-- The interfaces at file level or in namespaces, in source order. -/
def interfaces (f : SourceFile) : List Interface := (declarationsOf f.stmts).filterMap (·.getRight?)

end SourceFile

end ClassScript
