import ClassScript.Simplify.Fault
import ClassScript.Tree.Pass
/-!
# Arrays and loops over them

An array is an object of the host. A literal is a chain of calls that fill a new one, reading and
writing an element are calls, and a loop over the elements is a call with the body as a callback.
-/

namespace ClassScript.Simplify

/-- The class of the host's arrays. -/
def arrayClass : String := "JS\\PhpArray"

def callMethod (pos : Position) (object : Expr) (name : String) (args : List Expr) : Expr :=
  .methodCall pos object (.ident name) (args.map (⟨·, false⟩)) none

/-! ## The body of a loop -/

/-- How many loops stand around a statement inside of the body. -/
abbrev InLoops := ReaderT Nat (Except Fault)

/-- The pass that makes the body of a loop a callback's: to go on is to return, to break is to
return `false`, and the variables are those of the function around it. Closures stay as they are. -/
def callbackBody : Pass InLoops where
  stmt s below := match s with
    | .continueLoop p => do
      if (← read) = 0 then return [.ret p none] else return [.continueLoop p]
    | .breakLoop p => do
      if (← read) = 0 then return [.ret p (some (.bool p false))] else return [.breakLoop p]
    | .ret p _ => throw ⟨.foreachReturn, p⟩
    | .whileLoop .. | .forLoop .. => do return [← withReader (· + 1) below]
    | _ => do return [← below]
  expr _ below := do
    match ← below with
    | .assign p (.variable q n s) v _ => return .assign p (.variable q n s) v (some false)
    | e => return e
  closure c _ := return c

/-- The parameter that a loop binds. -/
def binding (e : Expr) : Except Fault Param :=
  match e.variableName? with
  | none => .error ⟨.foreachBinding, e.pos⟩
  | some name => .ok
    { name
      type := none
      default := none
      byRef := false
      variadic := false
      promoted := false
      pos := e.pos }

/-- A loop over elements as a call. -/
def iteration (pos : Position) (subject : Expr) (key : Option Expr) (value : Expr)
    (body : List Stmt) : Except Fault Stmt := do
  let value ← binding value
  let key ← key.mapM binding
  let body ← (stmtsThrough callbackBody body).run 0
  let callback : Closure :=
    { params := value :: key.toList
      captures := []
      body
      byRefReturn := false
      isStatic := false
      isIteration := true }
  return .expression (callMethod pos subject "foreach" [.closure pos callback])

/-! ## Literals and elements -/

/-- The call that puts an item into an array. The value is looked at before the key. -/
def addItem (pos : Position) (array : Expr) (v : ItemVisit (Except Fault)) : Except Fault Expr := do
  if v.item.byRef then throw ⟨.referenceItem, v.item.value.pos⟩
  if v.item.unpack then throw ⟨.unpackedItem, v.item.value.pos⟩
  let value ← v.value
  match v.key with
  | some key => return callMethod pos array "setItemAt" [← key, value]
  | none => return callMethod pos array "push" [value]

/-- The pass that leaves no arrays and no loops over them. -/
def arrays : Pass (Except Fault) where
  stmt _ below := do
    match ← below with
    | .foreach p subject key value byRef body =>
      if byRef then throw ⟨.foreachByReference, p⟩
      return [← iteration p subject key value body]
    | s => return [s]
  expr _ below := do
    match ← below with
    | .index p array (some dim) => return callMethod p array "getItemAt" [dim]
    | .index p _ none => throw ⟨.readWithoutIndex, p⟩
    | e => return e
  array pos items := items.foldlM (addItem pos) (.new pos (.named (.global arrayClass)) [])
  store v := do
    let array ← v.array
    let value ← v.value
    match v.index with
    | some index => return callMethod v.pos array "setItemAt" [← index, value]
    | none => return callMethod v.pos array "push" [value]

end ClassScript.Simplify
