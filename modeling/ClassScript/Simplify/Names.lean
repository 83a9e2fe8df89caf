import ClassScript.Tree.Pass
/-!
# Resolving names

Names of classes, functions and constants become fully qualified, and every class and interface
learns its qualified name. A name of a class is looked up by its first segment among the imports and
is relative to the namespace otherwise; an unqualified function or constant is global.

An import counts from where it stands to the end of its namespace, wherever in a statement it
stands. The types of catch clauses are resolved behind the whole statement, the header of a class
before its members.
-/

namespace ClassScript

/-- What names mean at some place. -/
structure Scope where
  namespaceName : Option Name := none
  /-- Names under their local words in small letters, the last import first. -/
  aliases : List (String × Name) := []
  /-- The class or interface around the place. -/
  owner : Option String := none

namespace Scope

/-- The name of a declaration in the namespace. -/
def qualify (s : Scope) (localName : String) : String :=
  match s.namespaceName with
  | none => localName
  | some n => if n.parts.isEmpty then localName else n.joined ++ "\\" ++ localName

def resolveClass (s : Scope) (n : Name) : Name :=
  match n.kind with
  | .fullyQualified => n
  | _ => match s.aliases.lookup (lower n.first) with
    | some target => .global ("\\".intercalate (target.parts ++ n.parts.tail))
    | none => .global (s.qualify n.joined)

/-- The global meaning of a function or constant. -/
def resolveFunction (s : Scope) (n : Name) : Name :=
  match n.kind with
  | .unqualified => .global n.joined
  | _ => s.resolveClass n

def resolveRef (s : Scope) : ClassRef → ClassRef
  | .named n => .named (s.resolveClass n)
  | c => c

/-- The name of a type; `self` is the class around it. -/
def resolveTypeName (s : Scope) (n : Name) : Name :=
  if n.isScalar then n
  else if n.parts.length == 1 && sameWord n.first "self" then
    match s.owner with
    | some c => .global c
    | none => s.resolveClass n
  else s.resolveClass n

def resolveType (s : Scope) (t : TypeHint) : TypeHint := { t with name := s.resolveTypeName t.name }

/-- The expression with its own names resolved; those below it stay. -/
def resolveExpr (s : Scope) : Expr → Expr
  | .new p c as => .new p (s.resolveRef c) as
  | .instanceOf p e c => .instanceOf p e (s.resolveRef c)
  | .classConst p c n => .classConst p (s.resolveRef c) n
  | .staticCall p c n as => .staticCall p (s.resolveRef c) n as
  | .staticProperty p c n => .staticProperty p (s.resolveRef c) n
  | .call p (.named n) as => .call p (.named (s.resolveFunction n)) as
  | .const p n => .const p (s.resolveFunction n)
  | e => e

def resolveCatch (s : Scope) (c : Catch) : Catch := { c with types := c.types.map s.resolveClass }

/-- The statement with the types of its own catch clauses resolved. -/
def resolveStmt (s : Scope) : Stmt → Stmt
  | .tryCatch p b cs f => .tryCatch p b (cs.map s.resolveCatch) f
  | st => st

/-- The scope behind an import. -/
def importing (s : Scope) (i : Import) : Scope :=
  { s with aliases := (lower i.localName, .global i.name.joined) :: s.aliases }

end Scope

namespace Simplify

/-- Runs an action inside of a class or interface. -/
def inside {α : Type} (owner : String) (act : StateM Scope α) : StateM Scope α := do
  let outer := (← get).owner
  modify ({ · with owner := some owner })
  let a ← act
  modify ({ · with owner := outer })
  return a

/-- Runs an action inside of a namespace, which has no imports at its start. -/
def inNamespace {α : Type} (name : Option Name) (act : StateM Scope α) : StateM Scope α := do
  let outer ← get
  set { outer with namespaceName := name, aliases := [] }
  let a ← act
  modify ({ · with namespaceName := outer.namespaceName, aliases := outer.aliases })
  return a

/-- The pass that resolves names. -/
def names : Pass (StateM Scope) where
  expr _ below := do
    let e ← below
    return (← get).resolveExpr e
  stmt s below := match s with
    | .nsBlock _ name _ _ => do return [← inNamespace name below]
    | .imports _ items => do
      modify fun scope => items.foldl Scope.importing scope
      return [← below]
    | _ => do
      let s ← below
      return [(← get).resolveStmt s]
  param p below := do
    let type := p.type.map (← get).resolveType
    return { ← below with type }
  cls c below := do
    let scope ← get
    let qualified := scope.qualify c.name
    let parent := c.parent.map scope.resolveClass
    let interfaces := c.interfaces.map scope.resolveClass
    return { ← inside qualified below with qualified := some qualified, parent, interfaces }
  iface i below := do
    let scope ← get
    let qualified := scope.qualify i.name
    let parents := i.parents.map scope.resolveClass
    return { ← inside qualified below with qualified := some qualified, parents }

/-- The statements with their names resolved, and the scope behind them. -/
def resolveNames (stmts : List Stmt) : List Stmt × Scope := (stmtsThrough names stmts).run {}

/-- The pass that drops `use` statements, which are of no use behind the pass for names. -/
def imports : Pass Id where
  stmt s below := match s with
    | .imports .. => []
    | _ => [below]

end Simplify

/-- The file with its names resolved. -/
def SourceFile.resolveNames (f : SourceFile) : SourceFile := { f with stmts := (Simplify.resolveNames f.stmts).1 }

end ClassScript
