import ClassScript.Tree.Basic
/-!
# Passes over the tree

A pass says what to do at each piece of the tree, given the piece as it stands and the action that
goes on below it and puts the piece together again. A pass that says nothing rebuilds the tree as it
is. Statements may turn into any number of statements.

Pieces are visited in source order. The items of an array literal and an assignment to an element
are handed over as actions of their own, for a pass that visits them in another order.
-/

namespace ClassScript

/-- An array item and the actions for its key and its value. -/
structure ItemVisit (m : Type → Type) where
  item : ArrayItem
  key : Option (m Expr)
  value : m Expr

namespace ItemVisit

variable {m : Type → Type} [Monad m]

/-- Visits the key, then the value. -/
def inOrder (v : ItemVisit m) : m ArrayItem := do
  let key ← v.key.mapM (fun act => act)
  let value ← v.value
  return { v.item with key, value }

end ItemVisit

/-- An assignment to the element of an array: the actions for the array, the index and the assigned
value, and the one that visits the element as a target like any other. -/
structure StoreVisit (m : Type → Type) where
  pos : Position
  declares : Option Bool
  array : m Expr
  index : Option (m Expr)
  value : m Expr
  target : m Expr

namespace StoreVisit

variable {m : Type → Type} [Monad m]

/-- Visits the target, then the value. -/
def inOrder (v : StoreVisit m) : m Expr := do
  let target ← v.target
  return .assign v.pos target (← v.value) v.declares

end StoreVisit

structure Pass (m : Type → Type) [Monad m] where
  expr : Expr → m Expr → m Expr := fun _ below => below
  stmt : Stmt → m Stmt → m (List Stmt) := fun _ below => do return [← below]
  param : Param → m Param → m Param := fun _ below => below
  closure : Closure → m Closure → m Closure := fun _ below => below
  clause : Catch → m Catch → m Catch := fun _ below => below
  method : Method → m Method → m Method := fun _ below => below
  cls : Class → m Class → m Class := fun _ below => below
  iface : Interface → m Interface → m Interface := fun _ below => below
  array : Position → List (ItemVisit m) → m Expr := fun pos items => do
    return .array pos (← items.mapM ItemVisit.inOrder)
  store : StoreVisit m → m Expr := StoreVisit.inOrder

mutual

variable {m : Type → Type} [Monad m] (pass : Pass m)

/-- The expression after the pass. -/
def Expr.through : Expr → m Expr
  | .variable p n s => pass.expr (.variable p n s) (return .variable p n s)
  | .dynamicVariable p e => pass.expr (.dynamicVariable p e) (do
      return .dynamicVariable p (← e.through))
  | .int p v => pass.expr (.int p v) (return .int p v)
  | .float p v => pass.expr (.float p v) (return .float p v)
  | .string p v => pass.expr (.string p v) (return .string p v)
  | .bool p v => pass.expr (.bool p v) (return .bool p v)
  | .null p => pass.expr (.null p) (return .null p)
  | .array p items => pass.expr (.array p items) (pass.array p (itemVisits items))
  | .index p t d => pass.expr (.index p t d) (do
      let t ← t.through
      return .index p t (← optionThrough d))
  | .property p o n b => pass.expr (.property p o n b) (do
      let o ← o.through
      return .property p o (← n.through) b)
  | .methodCall p o n as b => pass.expr (.methodCall p o n as b) (do
      let o ← o.through
      let n ← n.through
      return .methodCall p o n (← argsThrough as) b)
  | .staticCall p c n as => pass.expr (.staticCall p c n as) (do
      let c ← c.through
      let n ← n.through
      return .staticCall p c n (← argsThrough as))
  | .staticProperty p c n => pass.expr (.staticProperty p c n) (do
      return .staticProperty p (← c.through) n)
  | .classConst p c n => pass.expr (.classConst p c n) (do
      return .classConst p (← c.through) n)
  | .const p n => pass.expr (.const p n) (return .const p n)
  | .call p c as => pass.expr (.call p c as) (do
      let c ← c.through
      return .call p c (← argsThrough as))
  | .new p c as => pass.expr (.new p c as) (do
      let c ← c.through
      return .new p c (← argsThrough as))
  | .anonymousClass p => pass.expr (.anonymousClass p) (return .anonymousClass p)
  | .assign p (.index q a i) v d =>
    let array := a.through
    let index := indexVisit i
    pass.expr (.assign p (.index q a i) v d) (pass.store
      { pos := p
        declares := d
        array
        index
        value := v.through
        target := pass.expr (.index q a i) (do
          let a ← array
          return .index q a (← index.mapM fun act => act)) })
  | .assign p t v d => pass.expr (.assign p t v d) (do
      let t ← t.through
      return .assign p t (← v.through) d)
  | .assignOp p op t v => pass.expr (.assignOp p op t v) (do
      let t ← t.through
      return .assignOp p op t (← v.through))
  | .step p op t => pass.expr (.step p op t) (do return .step p op (← t.through))
  | .binary p op l r => pass.expr (.binary p op l r) (do
      let l ← l.through
      return .binary p op l (← r.through))
  | .unary p op e => pass.expr (.unary p op e) (do return .unary p op (← e.through))
  | .ternary p c t o => pass.expr (.ternary p c t o) (do
      let c ← c.through
      let t ← optionThrough t
      return .ternary p c t (← o.through))
  | .instanceOf p v c => pass.expr (.instanceOf p v c) (do
      let v ← v.through
      return .instanceOf p v (← c.through))
  | .cast p t e => pass.expr (.cast p t e) (do return .cast p t (← e.through))
  | .isset p es => pass.expr (.isset p es) (do return .isset p (← exprsThrough es))
  | .closure p c => pass.expr (.closure p c) (do return .closure p (← c.through))

def MemberName.through : MemberName → m MemberName
  | .ident n => return .ident n
  | .dynamic e => do return .dynamic (← e.through)

def ClassRef.through : ClassRef → m ClassRef
  | .named n => return .named n
  | .self => return .self
  | .parent => return .parent
  | .static => return .static
  | .dynamic e => do return .dynamic (← e.through)

def Callee.through : Callee → m Callee
  | .named n => return .named n
  | .dynamic e => do return .dynamic (← e.through)

def argsThrough : List Arg → m (List Arg)
  | [] => return []
  | ⟨v, u⟩ :: rest => do
    let v ← v.through
    return ⟨v, u⟩ :: (← argsThrough rest)

def itemVisits : List ArrayItem → List (ItemVisit m)
  | [] => []
  | ⟨k, v, r, u⟩ :: rest => ⟨⟨k, v, r, u⟩, indexVisit k, v.through⟩ :: itemVisits rest

def indexVisit : Option Expr → Option (m Expr)
  | none => none
  | some e => some e.through

def optionThrough : Option Expr → m (Option Expr)
  | none => return none
  | some e => do return some (← e.through)

def exprsThrough : List Expr → m (List Expr)
  | [] => return []
  | e :: rest => do
    let e ← e.through
    return e :: (← exprsThrough rest)

def Param.through : Param → m Param
  | ⟨n, t, d, r, v, pr, pos⟩ => pass.param ⟨n, t, d, r, v, pr, pos⟩ (do
      return ⟨n, t, ← optionThrough d, r, v, pr, pos⟩)

def paramsThrough : List Param → m (List Param)
  | [] => return []
  | p :: rest => do
    let p ← p.through
    return p :: (← paramsThrough rest)

def Closure.through : Closure → m Closure
  | ⟨ps, cs, b, r, s, i⟩ => pass.closure ⟨ps, cs, b, r, s, i⟩ (do
      let ps ← paramsThrough ps
      return ⟨ps, cs, ← stmtsThrough b, r, s, i⟩)

/-- The statements after the pass. -/
def stmtsThrough : List Stmt → m (List Stmt)
  | [] => return []
  | s :: rest => do
    let s ← s.through
    return s ++ (← stmtsThrough rest)

def bodyThrough : Option (List Stmt) → m (Option (List Stmt))
  | none => return none
  | some b => do return some (← stmtsThrough b)

def elseIfsThrough : List ElseIf → m (List ElseIf)
  | [] => return []
  | ⟨c, b⟩ :: rest => do
    let c ← c.through
    let b ← stmtsThrough b
    return ⟨c, b⟩ :: (← elseIfsThrough rest)

def Catch.through : Catch → m Catch
  | ⟨t, v, b, p⟩ => pass.clause ⟨t, v, b, p⟩ (do return ⟨t, v, ← stmtsThrough b, p⟩)

def catchesThrough : List Catch → m (List Catch)
  | [] => return []
  | c :: rest => do
    let c ← c.through
    return c :: (← catchesThrough rest)

def Stmt.through : Stmt → m (List Stmt)
  | .expression e => pass.stmt (.expression e) (do return .expression (← e.through))
  | .echo p es => pass.stmt (.echo p es) (do return .echo p (← exprsThrough es))
  | .ret p v => pass.stmt (.ret p v) (do return .ret p (← optionThrough v))
  | .branch p c t ei o => pass.stmt (.branch p c t ei o) (do
      let c ← c.through
      let t ← stmtsThrough t
      let ei ← elseIfsThrough ei
      return .branch p c t ei (← bodyThrough o))
  | .whileLoop p c b => pass.stmt (.whileLoop p c b) (do
      let c ← c.through
      return .whileLoop p c (← stmtsThrough b))
  | .forLoop p i c s b => pass.stmt (.forLoop p i c s b) (do
      let i ← exprsThrough i
      let c ← exprsThrough c
      let s ← exprsThrough s
      return .forLoop p i c s (← stmtsThrough b))
  | .foreach p s k v r b => pass.stmt (.foreach p s k v r b) (do
      let s ← s.through
      let k ← optionThrough k
      let v ← v.through
      return .foreach p s k v r (← stmtsThrough b))
  | .breakLoop p => pass.stmt (.breakLoop p) (return .breakLoop p)
  | .continueLoop p => pass.stmt (.continueLoop p) (return .continueLoop p)
  | .throwValue p e => pass.stmt (.throwValue p e) (do return .throwValue p (← e.through))
  | .tryCatch p b cs f => pass.stmt (.tryCatch p b cs f) (do
      let b ← stmtsThrough b
      let cs ← catchesThrough cs
      return .tryCatch p b cs (← bodyThrough f))
  | .block p b => pass.stmt (.block p b) (do return .block p (← stmtsThrough b))
  | .nsBlock p n b br => pass.stmt (.nsBlock p n b br) (do
      return .nsBlock p n (← stmtsThrough b) br)
  | .imports p is => pass.stmt (.imports p is) (return .imports p is)
  | .classDecl c => pass.stmt (.classDecl c) (do return .classDecl (← c.through))
  | .interfaceDecl i => pass.stmt (.interfaceDecl i) (do return .interfaceDecl (← i.through))
  | .functionDecl p n => pass.stmt (.functionDecl p n) (return .functionDecl p n)
  | .nop p => pass.stmt (.nop p) (return .nop p)

def Method.through : Method → m Method
  | ⟨n, ps, b, r, mo, re, pos⟩ => pass.method ⟨n, ps, b, r, mo, re, pos⟩ (do
      let ps ← paramsThrough ps
      return ⟨n, ps, ← bodyThrough b, r, mo, re, pos⟩)

def membersThrough : List Member → m (List Member)
  | [] => return []
  | .property ⟨n, d, mo, re, p⟩ :: rest => do
    let d ← optionThrough d
    return .property ⟨n, d, mo, re, p⟩ :: (← membersThrough rest)
  | .const ⟨n, v, mo, re, p⟩ :: rest => do
    let v ← v.through
    return .const ⟨n, v, mo, re, p⟩ :: (← membersThrough rest)
  | .method d :: rest => do
    let d ← d.through
    return .method d :: (← membersThrough rest)
  | .traitUse ns :: rest => do return .traitUse ns :: (← membersThrough rest)

def Class.through : Class → m Class
  | ⟨n, pa, is, ms, a, f, p, q, ap⟩ => pass.cls ⟨n, pa, is, ms, a, f, p, q, ap⟩ (do
      return ⟨n, pa, is, ← membersThrough ms, a, f, p, q, ap⟩)

/-- The members of an interface after the pass, which leaves a property among them as it is. -/
def interfaceMembersThrough : List Member → m (List Member)
  | [] => return []
  | .const ⟨n, v, mo, re, p⟩ :: rest => do
    let v ← v.through
    return .const ⟨n, v, mo, re, p⟩ :: (← interfaceMembersThrough rest)
  | .method d :: rest => do
    let d ← d.through
    return .method d :: (← interfaceMembersThrough rest)
  | .property d :: rest => do return .property d :: (← interfaceMembersThrough rest)
  | .traitUse ns :: rest => do return .traitUse ns :: (← interfaceMembersThrough rest)

def Interface.through : Interface → m Interface
  | ⟨n, ps, ms, p, q⟩ => pass.iface ⟨n, ps, ms, p, q⟩ (do
      return ⟨n, ps, ← interfaceMembersThrough ms, p, q⟩)

end

/-- The file after the pass. -/
def SourceFile.through {m : Type → Type} [Monad m] (pass : Pass m) (f : SourceFile) : m SourceFile := do
  return { f with stmts := ← stmtsThrough pass f.stmts }

/-! ## One level of an expression

`Expr.mapChildren` puts an expression together again from what a function makes of the expressions
directly below it. It knows of no pass: at the children it goes on with any function. -/

section

variable {m : Type → Type} [Monad m] (f : Expr → m Expr) (g : Closure → m Closure)

def MemberName.mapChildren : MemberName → m MemberName
  | .dynamic e => do return .dynamic (← f e)
  | .ident n => return .ident n

def ClassRef.mapChildren : ClassRef → m ClassRef
  | .dynamic e => do return .dynamic (← f e)
  | c => return c

def Callee.mapChildren : Callee → m Callee
  | .dynamic e => do return .dynamic (← f e)
  | .named n => return .named n

def Arg.mapChildren (a : Arg) : m Arg := do return { a with value := ← f a.value }

/-- The key, then the value. -/
def ArrayItem.mapChildren (i : ArrayItem) : m ArrayItem := do
  let key ← i.key.mapM f
  return { i with key, value := ← f i.value }

/-- The expression with `f` done at the expressions directly below it, from left to right, and `g`
at the closure it is. -/
def Expr.mapChildren : Expr → m Expr
  | .dynamicVariable p e => do return .dynamicVariable p (← f e)
  | .array p items => do return .array p (← items.mapM (·.mapChildren f))
  | .index p t d => do
    let t ← f t
    return .index p t (← d.mapM f)
  | .property p o n b => do
    let o ← f o
    return .property p o (← n.mapChildren f) b
  | .methodCall p o n as b => do
    let o ← f o
    let n ← n.mapChildren f
    return .methodCall p o n (← as.mapM (·.mapChildren f)) b
  | .staticCall p c n as => do
    let c ← c.mapChildren f
    let n ← n.mapChildren f
    return .staticCall p c n (← as.mapM (·.mapChildren f))
  | .staticProperty p c n => do return .staticProperty p (← c.mapChildren f) n
  | .classConst p c n => do return .classConst p (← c.mapChildren f) n
  | .call p c as => do
    let c ← c.mapChildren f
    return .call p c (← as.mapM (·.mapChildren f))
  | .new p c as => do
    let c ← c.mapChildren f
    return .new p c (← as.mapM (·.mapChildren f))
  | .assign p t v d => do
    let t ← f t
    return .assign p t (← f v) d
  | .assignOp p op t v => do
    let t ← f t
    return .assignOp p op t (← f v)
  | .step p op t => do return .step p op (← f t)
  | .binary p op l r => do
    let l ← f l
    return .binary p op l (← f r)
  | .unary p op e => do return .unary p op (← f e)
  | .ternary p c t o => do
    let c ← f c
    let t ← t.mapM f
    return .ternary p c t (← f o)
  | .instanceOf p v c => do
    let v ← f v
    return .instanceOf p v (← c.mapChildren f)
  | .cast p t e => do return .cast p t (← f e)
  | .isset p es => do return .isset p (← es.mapM f)
  | .closure p c => do return .closure p (← g c)
  | leaf => return leaf

end

end ClassScript
