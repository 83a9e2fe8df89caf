import ClassScript.Tree.Pass
/-!
# Parameter types

A typed parameter becomes a check at the start of the body that throws a `TypeError` for a value of
another type. The class that implements the script interface keeps its types, for what it asks of
the host is read off them. In sources of the library the types are dropped.
-/

namespace ClassScript.Simplify

/-- The class of the error that a guard throws. -/
def typeErrorClass : String := "TypeError"

/-- The builtin test of a scalar type; the others hold of every value. -/
def scalarTest? (type : String) : Option String :=
  match type with
  | "string" => some "is_string"
  | "int" => some "is_int"
  | "float" => some "is_float"
  | "bool" => some "is_bool"
  | "array" | "iterable" => some "is_array"
  | "callable" => some "is_callable"
  | "object" => some "is_object"
  | "null" => some "is_null"
  | _ => none

/-- The test of a type on an expression; `none` if it always holds. -/
def typeTest? (type : TypeHint) (subject : Expr) (pos : Position) : Option Expr :=
  if type.name.isScalar then
    (scalarTest? (lower type.name.first)).map fun test =>
      .call pos (.named (.global test)) [⟨subject, false⟩]
  else some (.instanceOf pos subject (.named type.name))

/-- When a guard throws: null passes if the type allows it or there is a default. -/
def guardTest (nullable : Bool) (isset matching : Expr) (pos : Position) : Expr :=
  if nullable then .binary pos .and isset (.unary pos .not matching)
  else .binary pos .or (.unary pos .not isset) (.unary pos .not matching)

def spelledType (type : TypeHint) : String :=
  (if type.nullable then "?" else "")
    ++ if type.name.isScalar then type.name.joined else type.name.display

/-- The guard of the parameter at an index of a function. -/
def guard? (owner : String) (index : Nat) (param : Param) (type : TypeHint) : Option Stmt :=
  let pos := param.pos
  let subject := Expr.var pos param.name
  (typeTest? type subject pos).map fun matching =>
    let test := guardTest (type.nullable || param.default.isSome) (.isset pos [subject]) matching pos
    let message := "Argument " ++ toString (index + 1) ++ " passed to " ++ owner
      ++ "() must be of type " ++ spelledType type
    let error := Expr.new pos (.named (.global typeErrorClass)) [⟨.string pos message, false⟩]
    .branch pos test [.throwValue pos error] [] none

/-- The guards of parameters, the first of which is at the given index. -/
def guardsFrom (owner : String) (index : Nat) : List Param → List Stmt
  | [] => []
  | p :: rest =>
    let guard := if p.variadic then none else p.type.bind (guard? owner index p)
    guard.toList ++ guardsFrom owner (index + 1) rest

def guards (owner : String) (params : List Param) : List Stmt := guardsFrom owner 0 params

def untyped (p : Param) : Param := { p with type := none }

/-- Where a parameter stands: whether in a script class, and in which class. -/
structure Place where
  inScript : Bool := false
  cls : Option String := none

/-- The pass that makes types into guards. -/
def typeGuards (scriptInterface : String) : Pass (ReaderM Place) where
  cls c below := withReader (fun _ => ⟨c.lists scriptInterface, some c.qualifiedName⟩) below
  method _ below := do
    let m ← below
    let place ← read
    if place.inScript then return m
    let owner := place.cls.getD "" ++ "::" ++ m.name
    return { m with
      params := m.params.map untyped
      body := m.body.map (guards owner m.params ++ ·) }
  closure _ below := do
    let c ← below
    if (← read).inScript then return c
    return { c with
      params := c.params.map untyped
      body := guards "\x7bclosure\x7d" c.params ++ c.body }

/-- The pass that drops types. -/
def typeless : Pass Id where
  param _ below := untyped below

end ClassScript.Simplify
