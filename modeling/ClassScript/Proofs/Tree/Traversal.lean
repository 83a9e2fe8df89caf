import ClassScript.Proofs.Tree.Edited
/-!
# Traversals

The expressions directly below an expression are named by `subexprs`, and they can be put in place of each other
(`Expr.put`). `Expr.mapChildren` does what it is told to these, one after the other, and puts what becomes of them in
their places (`Expr.mapChildren_eq`): it forgets none, hands over nothing else and keeps the rest of the expression.
A pass goes on below an expression in this way (`Expr.through_eq`), and one that says nothing leaves every tree as it
is (`stmtsThrough_default`).
-/

namespace ClassScript

/-! ## New expressions in the places of those below -/

def MemberName.put : MemberName → List Expr → MemberName
  | .dynamic _, e :: _ => .dynamic e
  | n, _ => n

def ClassRef.put : ClassRef → List Expr → ClassRef
  | .dynamic _, e :: _ => .dynamic e
  | c, _ => c

def Callee.put : Callee → List Expr → Callee
  | .dynamic _, e :: _ => .dynamic e
  | c, _ => c

def putOption : Option Expr → List Expr → Option Expr
  | some _, e :: _ => some e
  | o, _ => o

def putArgs : List Arg → List Expr → List Arg
  | a :: as, e :: es => { a with value := e } :: putArgs as es
  | as, _ => as

def putItems : List ArrayItem → List Expr → List ArrayItem
  | [], _ => []
  | i :: is, es =>
    let behind := es.drop i.key.toList.length
    { i with key := putOption i.key es, value := behind.headD i.value } :: putItems is behind.tail

/-- The expression with others in the places of those directly below it, in source order. -/
@[simp] def Expr.put : Expr → List Expr → Expr
  | .dynamicVariable p e => fun es => .dynamicVariable p (es.headD e)
  | .array p items => fun es => .array p (putItems items es)
  | .index p t d => fun es => .index p (es.headD t) (putOption d es.tail)
  | .property p o n b => fun es => .property p (es.headD o) (n.put es.tail) b
  | .methodCall p o n as b => fun es =>
    .methodCall p (es.headD o) (n.put es.tail) (putArgs as (es.tail.drop n.exprs.length)) b
  | .staticCall p c n as => fun es =>
    let behind := es.drop c.exprs.length
    .staticCall p (c.put es) (n.put behind) (putArgs as (behind.drop n.exprs.length))
  | .staticProperty p c n => fun es => .staticProperty p (c.put es) n
  | .classConst p c n => fun es => .classConst p (c.put es) n
  | .call p c as => fun es => .call p (c.put es) (putArgs as (es.drop c.exprs.length))
  | .new p c as => fun es => .new p (c.put es) (putArgs as (es.drop c.exprs.length))
  | .assign p t v d => fun es => .assign p (es.headD t) (es.tail.headD v) d
  | .assignOp p op t v => fun es => .assignOp p op (es.headD t) (es.tail.headD v)
  | .step p op t => fun es => .step p op (es.headD t)
  | .binary p op l r => fun es => .binary p op (es.headD l) (es.tail.headD r)
  | .unary p op e => fun es => .unary p op (es.headD e)
  | .ternary p c t o => fun es =>
    .ternary p (es.headD c) (putOption t es.tail) ((es.tail.drop t.toList.length).headD o)
  | .instanceOf p v c => fun es => .instanceOf p (es.headD v) (c.put es.tail)
  | .cast p t e => fun es => .cast p t (es.headD e)
  | .isset p _ => fun es => .isset p es
  | e => fun _ => e

section Laws

variable (rest : List Expr)

theorem putOption_toList (o : Option Expr) : putOption o (o.toList ++ rest) = o := by cases o <;> rfl

theorem MemberName.put_exprs (n : MemberName) : n.put (n.exprs ++ rest) = n := by cases n <;> rfl

theorem ClassRef.put_exprs (c : ClassRef) : c.put (c.exprs ++ rest) = c := by cases c <;> rfl

theorem Callee.put_exprs (c : Callee) : c.put (c.exprs ++ rest) = c := by cases c <;> rfl

theorem putArgs_argExprs (as : List Arg) : putArgs as (argExprs as) = as := by
  induction as with
  | nil => rfl
  | cons a as ih =>
    obtain ⟨value, unpack⟩ := a
    exact congrArg (⟨value, unpack⟩ :: ·) ih

theorem putItems_itemExprs (is : List ArrayItem) : putItems is (itemExprs is) = is := by
  induction is with
  | nil => rfl
  | cons i is ih =>
    obtain ⟨key, value, byRef, unpack⟩ := i
    simp [itemExprs, putItems, putOption_toList, ih]

/-- Putting back what is there changes nothing. -/
theorem Expr.put_subexprs (e : Expr) : e.put e.subexprs = e := by
  have hn (n : MemberName) := n.put_exprs []
  have hc (c : ClassRef) := c.put_exprs []
  have ho (o : Option Expr) := putOption_toList [] o
  simp only [List.append_nil] at hn hc ho
  cases e with
  | array p is => simp [Expr.subexprs, putItems_itemExprs]
  | _ => simp [Expr.subexprs, MemberName.put_exprs, ClassRef.put_exprs, Callee.put_exprs, putOption_toList,
      putArgs_argExprs, hn, hc, ho]

end Laws

section Found

variable {es : List Expr}

theorem argExprs_putArgs {as : List Arg} (h : es.length = (argExprs as).length) : argExprs (putArgs as es) = es := by
  induction as generalizing es with
  | nil => exact (List.length_eq_zero_iff.1 h).symm
  | cons a as ih =>
    obtain ⟨e, es, rfl⟩ := List.exists_cons_of_length_eq_add_one h
    exact congrArg (e :: ·) (ih (Nat.succ.inj h))

theorem itemExprs_putItems {is : List ArrayItem} (h : es.length = (itemExprs is).length) :
    itemExprs (putItems is es) = es := by
  induction is generalizing es with
  | nil => exact (List.length_eq_zero_iff.1 h).symm
  | cons i is ih =>
    obtain ⟨key, value, byRef, unpack⟩ := i
    cases key with
    | none =>
      obtain ⟨e, es, rfl⟩ := List.exists_cons_of_length_eq_add_one h
      exact congrArg (e :: ·) (ih (Nat.succ.inj h))
    | some key =>
      obtain ⟨k, es, rfl⟩ := List.exists_cons_of_length_eq_add_one h
      obtain ⟨e, es, rfl⟩ := List.exists_cons_of_length_eq_add_one (Nat.succ.inj h)
      exact congrArg (k :: e :: ·) (ih (Nat.succ.inj (Nat.succ.inj h)))

/-- The expressions for the first places and those for the others. -/
theorem exists_append_of_length {k l : Nat} (h : es.length = k + l) :
    ∃ front back, es = front ++ back ∧ front.length = k ∧ back.length = l :=
  ⟨es.take k, es.drop k, (List.take_append_drop k es).symm, by simp; omega, by simp; omega⟩

variable (rest : List Expr)

theorem toList_putOption {o : Option Expr} (h : es.length = o.toList.length) :
    (putOption o (es ++ rest)).toList = es := by
  cases o with
  | none => exact (List.length_eq_zero_iff.1 h).symm
  | some e =>
    obtain ⟨e, rfl⟩ := List.length_eq_one_iff.1 h
    rfl

theorem MemberName.exprs_put {n : MemberName} (h : es.length = n.exprs.length) : (n.put (es ++ rest)).exprs = es := by
  cases n with
  | ident => exact (List.length_eq_zero_iff.1 h).symm
  | dynamic e =>
    obtain ⟨e, rfl⟩ := List.length_eq_one_iff.1 h
    rfl

theorem ClassRef.exprs_put {c : ClassRef} (h : es.length = c.exprs.length) : (c.put (es ++ rest)).exprs = es := by
  cases c with
  | dynamic e =>
    obtain ⟨e, rfl⟩ := List.length_eq_one_iff.1 h
    rfl
  | _ => exact (List.length_eq_zero_iff.1 h).symm

theorem Callee.exprs_put {c : Callee} (h : es.length = c.exprs.length) : (c.put (es ++ rest)).exprs = es := by
  cases c with
  | named => exact (List.length_eq_zero_iff.1 h).symm
  | dynamic e =>
    obtain ⟨e, rfl⟩ := List.length_eq_one_iff.1 h
    rfl

/-- What is put there is found there. -/
theorem Expr.subexprs_put {e : Expr} (h : es.length = e.subexprs.length) : (e.put es).subexprs = es := by
  cases e with
  | «variable» | int | float | string | bool | null | const | anonymousClass | closure =>
    rw [List.length_eq_zero_iff.1 h]
    rfl
  | dynamicVariable | step | unary | cast =>
    obtain ⟨e, rfl⟩ := List.length_eq_one_iff.1 h
    rfl
  | assign | assignOp | binary =>
    obtain ⟨l, r, rfl⟩ := List.length_eq_two.1 h
    rfl
  | array p is => exact itemExprs_putItems h
  | isset p es => rfl
  | staticProperty p c n | classConst p c n => simpa [Expr.subexprs] using ClassRef.exprs_put [] h
  | index p t d =>
    obtain ⟨e, es, rfl⟩ := List.exists_cons_of_length_eq_add_one h
    simpa [Expr.subexprs] using toList_putOption [] (Nat.succ.inj h)
  | property p o n b =>
    obtain ⟨e, es, rfl⟩ := List.exists_cons_of_length_eq_add_one h
    simpa [Expr.subexprs] using MemberName.exprs_put [] (Nat.succ.inj h)
  | instanceOf p v c =>
    obtain ⟨e, es, rfl⟩ := List.exists_cons_of_length_eq_add_one h
    simpa [Expr.subexprs] using ClassRef.exprs_put [] (Nat.succ.inj h)
  | ternary p c t o =>
    obtain ⟨e, es, rfl⟩ := List.exists_cons_of_length_eq_add_one h
    obtain ⟨front, back, rfl, hfront, hback⟩ := exists_append_of_length ((Nat.succ.inj h).trans List.length_append)
    obtain ⟨last, rfl⟩ := List.length_eq_one_iff.1 hback
    simp [Expr.subexprs, toList_putOption _ hfront, ← hfront]
  | methodCall p o n as b =>
    -- The expressions behind the first are those of the name and those of the arguments.
    obtain ⟨e, es, rfl⟩ := List.exists_cons_of_length_eq_add_one h
    obtain ⟨front, back, rfl, hfront, hback⟩ := exists_append_of_length ((Nat.succ.inj h).trans List.length_append)
    simp [Expr.subexprs, MemberName.exprs_put _ hfront, ← hfront, argExprs_putArgs hback]
  | staticCall p c n as =>
    obtain ⟨front, back, rfl, hfront, hback⟩ := exists_append_of_length (h.trans List.length_append)
    obtain ⟨front, middle, rfl, hcls, hname⟩ := exists_append_of_length (hfront.trans List.length_append)
    simp [Expr.subexprs, List.append_assoc, ClassRef.exprs_put _ hcls, ← hcls, MemberName.exprs_put _ hname, ← hname,
      argExprs_putArgs hback]
  | call p c as =>
    obtain ⟨front, back, rfl, hfront, hback⟩ := exists_append_of_length (h.trans List.length_append)
    simp [Expr.subexprs, Callee.exprs_put _ hfront, ← hfront, argExprs_putArgs hback]
  | new p c as =>
    obtain ⟨front, back, rfl, hfront, hback⟩ := exists_append_of_length (h.trans List.length_append)
    simp [Expr.subexprs, ClassRef.exprs_put _ hfront, ← hfront, argExprs_putArgs hback]

end Found

/-! ## One level -/

section Monad

variable {m : Type → Type} [Monad m] [LawfulMonad m]

section Children

variable (f : Expr → m Expr)

theorem mapM_eq_putOption (o : Option Expr) : o.mapM f = putOption o <$> o.toList.mapM f := by
  cases o <;> simp [putOption]

theorem MemberName.mapChildren_eq (n : MemberName) : n.mapChildren f = n.put <$> n.exprs.mapM f := by
  cases n <;> simp [MemberName.mapChildren, MemberName.exprs, MemberName.put]

theorem ClassRef.mapChildren_eq (c : ClassRef) : c.mapChildren f = c.put <$> c.exprs.mapM f := by
  cases c <;> simp [ClassRef.mapChildren, ClassRef.exprs, ClassRef.put]

theorem Callee.mapChildren_eq (c : Callee) : c.mapChildren f = c.put <$> c.exprs.mapM f := by
  cases c <;> simp [Callee.mapChildren, Callee.exprs, Callee.put]

theorem mapM_eq_putArgs (as : List Arg) : as.mapM (·.mapChildren f) = putArgs as <$> (argExprs as).mapM f := by
  induction as with
  | nil => simp [argExprs, putArgs]
  | cons a as ih =>
    have hexprs : argExprs (a :: as) = a.value :: argExprs as := rfl
    rw [List.mapM_cons, ih, hexprs]
    simp [Arg.mapChildren, putArgs]

theorem mapM_eq_putItems (is : List ArrayItem) :
    is.mapM (·.mapChildren f) = putItems is <$> (itemExprs is).mapM f := by
  induction is with
  | nil => simp [itemExprs, putItems]
  | cons i is ih =>
    obtain ⟨key, value, byRef, unpack⟩ := i
    rw [List.mapM_cons, ih]
    cases key <;> simp [ArrayItem.mapChildren, itemExprs, putItems, putOption]

/-- An expression is put together again from what becomes of the expressions directly below it, one after the
other in source order. -/
theorem Expr.mapChildren_eq (g : Closure → m Closure) {e : Expr} (he : ∀ p c, e ≠ .closure p c) :
    e.mapChildren f g = e.put <$> e.subexprs.mapM f := by
  cases e with
  | closure p c => exact absurd rfl (he p c)
  | array p is => simp [Expr.mapChildren, mapM_eq_putItems, Expr.subexprs]
  | methodCall p o n as b =>
    simp only [Expr.mapChildren, mapM_eq_putArgs]
    cases n <;> simp [MemberName.mapChildren, Expr.subexprs, MemberName.put, MemberName.exprs]
  | staticCall p c n as =>
    simp only [Expr.mapChildren, mapM_eq_putArgs]
    cases c <;> cases n <;> simp [ClassRef.mapChildren, MemberName.mapChildren, Expr.subexprs, ClassRef.put,
      ClassRef.exprs, MemberName.put, MemberName.exprs]
  | call p c as =>
    simp only [Expr.mapChildren, mapM_eq_putArgs]
    cases c <;> simp [Callee.mapChildren, Expr.subexprs, Callee.put, Callee.exprs]
  | new p c as =>
    simp only [Expr.mapChildren, mapM_eq_putArgs]
    cases c <;> simp [ClassRef.mapChildren, Expr.subexprs, ClassRef.put, ClassRef.exprs]
  | ternary p c t o => cases t <;> simp [Expr.mapChildren, Expr.subexprs, putOption]
  | _ => simp [Expr.mapChildren, mapM_eq_putOption, MemberName.mapChildren_eq, ClassRef.mapChildren_eq,
      Expr.subexprs]

end Children

/-! ### What is handed over -/

/-- Notes a part behind those noted before it. -/
def note (p : Part) : StateM (List Part) Unit := modify (· ++ [p])

/-- The parts that `mapChildren` hands over, in their order. -/
def Expr.handed (e : Expr) : List Part :=
  ((e.mapChildren (m := StateM (List Part)) (fun c => do note (.expr c); return c)
    fun c => do note (.closure c); return c).run []).2

theorem run_mapM_note (es : List Expr) (noted : List Part) :
    (es.mapM (m := StateM (List Part)) fun c => do note (.expr c); return c).run noted =
      (es, noted ++ Part.exprs es) := by
  induction es generalizing noted with
  | nil => exact congrArg (([], ·)) (List.append_nil noted).symm
  | cons e es ih =>
    have hnote : StateT.run (m := Id) (do note (.expr e); return e) noted = (e, noted ++ [.expr e]) := rfl
    have hrest : noted ++ [.expr e] ++ Part.exprs es = noted ++ Part.exprs (e :: es) := List.append_cons .. |>.symm
    rw [List.mapM_cons, StateT.run_bind, hnote, ← hrest]
    exact congrArg (fun r : List Expr × List Part => (e :: r.1, r.2)) (ih (noted ++ [.expr e]))

/-- Handed over are the children of the expression, be it a closure or not. -/
theorem Expr.handed_eq (e : Expr) : e.handed = (Part.expr e).children := by
  by_cases h : ∃ p c, e = .closure p c
  · obtain ⟨p, c, rfl⟩ := h
    rfl
  · have he : ∀ p c, e ≠ .closure p c := fun p c hc => h ⟨p, c, hc⟩
    rw [Expr.handed, Expr.mapChildren_eq _ _ he, StateT.run_map, run_mapM_note, Part.children, Part.ofExpr_eq he]
    rfl

/-! ## Passes -/

/-- A pass that visits the items of array literals and assignments to elements in source order. -/
structure Pass.InOrder {m : Type → Type} [Monad m] (pass : Pass m) : Prop where
  array : pass.array = fun pos items => do return .array pos (← items.mapM ItemVisit.inOrder)
  store : pass.store = StoreVisit.inOrder

section Through

variable (pass : Pass m)

theorem optionThrough_eq_mapM (o : Option Expr) : optionThrough pass o = o.mapM (·.through pass) := by
  cases o <;> simp [optionThrough]

omit [LawfulMonad m] in
theorem MemberName.through_eq (n : MemberName) : n.through pass = n.mapChildren (·.through pass) := by
  cases n <;> rfl

omit [LawfulMonad m] in
theorem ClassRef.through_eq (c : ClassRef) : c.through pass = c.mapChildren (·.through pass) := by
  cases c <;> rfl

omit [LawfulMonad m] in
theorem Callee.through_eq (c : Callee) : c.through pass = c.mapChildren (·.through pass) := by
  cases c <;> rfl

theorem argsThrough_eq_mapM (as : List Arg) : argsThrough pass as = as.mapM (·.mapChildren (·.through pass)) := by
  induction as with
  | nil => simp [argsThrough]
  | cons a as ih =>
    obtain ⟨value, unpack⟩ := a
    simp [argsThrough, ih, Arg.mapChildren]

theorem exprsThrough_eq_mapM (es : List Expr) : exprsThrough pass es = es.mapM (·.through pass) := by
  induction es with
  | nil => simp [exprsThrough]
  | cons e es ih => simp [exprsThrough, ih]

theorem items_eq_mapM (is : List ArrayItem) :
    (itemVisits pass is).mapM ItemVisit.inOrder = is.mapM (·.mapChildren (·.through pass)) := by
  induction is with
  | nil => simp [itemVisits]
  | cons i is ih =>
    obtain ⟨key, value, byRef, unpack⟩ := i
    cases key <;> simp [itemVisits, indexVisit, ItemVisit.inOrder, ArrayItem.mapChildren, ih]

omit [LawfulMonad m] in
theorem index_eq_mapM (i : Option Expr) :
    ((indexVisit pass i).mapM fun act => act) = i.mapM (·.through pass) := by
  cases i <;> simp [indexVisit]

/-- A pass does at an expression what it says, given the expression with the pass done to its children. -/
theorem Expr.through_eq {e : Expr} (h : e.inOrder = true ∨ pass.InOrder) :
    e.through pass = pass.expr e (e.mapChildren (·.through pass) (·.through pass)) := by
  cases e with
  | array p is =>
    have horder := h.resolve_left Bool.false_ne_true
    rw [Expr.through, horder.array, Expr.mapChildren, ← items_eq_mapM]
  | assign p t v d =>
    cases t with
    | index q a i =>
      -- The visit of the element is the one of a target like any other.
      have horder := h.resolve_left Bool.false_ne_true
      rw [Expr.through, horder.store, StoreVisit.inOrder, index_eq_mapM, ← optionThrough_eq_mapM]
      rfl
    | _ => rfl
  | index p t d => rw [Expr.through, optionThrough_eq_mapM]; rfl
  | property p o n b => rw [Expr.through, MemberName.through_eq]; rfl
  | methodCall p o n as b => rw [Expr.through, MemberName.through_eq, argsThrough_eq_mapM]; rfl
  | staticCall p c n as =>
    rw [Expr.through, ClassRef.through_eq, MemberName.through_eq, argsThrough_eq_mapM]; rfl
  | staticProperty p c n => rw [Expr.through, ClassRef.through_eq]; rfl
  | classConst p c n => rw [Expr.through, ClassRef.through_eq]; rfl
  | call p c as => rw [Expr.through, Callee.through_eq, argsThrough_eq_mapM]; rfl
  | new p c as => rw [Expr.through, ClassRef.through_eq, argsThrough_eq_mapM]; rfl
  | ternary p c t o => rw [Expr.through, optionThrough_eq_mapM]; rfl
  | instanceOf p v c => rw [Expr.through, ClassRef.through_eq]; rfl
  | isset p es => rw [Expr.through, exprsThrough_eq_mapM]; rfl
  | _ => rfl

end Through

/-! ## The pass that says nothing -/

/-- Of the one value that an action without effects gives. -/
def Logic.still (m : Type → Type) [Monad m] [LawfulMonad m] : Logic m Unit where
  Gives k act Q := ∃ a, act = Pure.pure a ∧ Q a k
  weaken h hQ := h.imp fun _ ⟨ha, hP⟩ => ⟨ha, hQ _ _ hP⟩
  pure h := ⟨_, rfl, h⟩
  bind h hf := by
    obtain ⟨a, rfl, hP⟩ := h
    rw [pure_bind]
    exact hf a _ hP
  map h hf := by
    obtain ⟨a, rfl, hP⟩ := h
    exact ⟨_, map_pure _ a, hf a _ hP⟩

/-- The part stays, and it is put together again from children that stay. -/
def Rests (_ : Unit) (p : Part) (ps : List Part) (_ : Unit) : Prop := ps = [p] ∧ Rebuilt Stays () p p ()

theorem Rebuilt.rests {k k' : Unit} {p p' : Part} (h : Rebuilt Rests k p p' k') : Rests k p [p'] k' := by
  have hstays : Rebuilt Stays () p p' () := h.steady (fun _ => rfl) fun _ _ _ hc => hc.1
  obtain rfl := hstays.eq_of_stays
  exact ⟨rfl, hstays⟩

/-- Where nothing is said, a piece stays if what is below it does. -/
theorem default_sound : Sound (Logic.still m) {} Rests (Change.expr Rests) where
  below _ h := h.rests
  array hvs := (Logic.still m).bind (VisitsItem.mapM hvs _) fun _ _ his =>
    (Logic.still m).pure (Rebuilt.array his).rests
  store hv := (Logic.still m).weaken (hv.inOrder _) fun _ _ h => h.rests
  expr hact := hact _
  stmt hact := (Logic.still m).bind (hact _) fun _ _ h => (Logic.still m).pure h.rests
  param hact := (Logic.still m).weaken (hact _) fun _ _ h => h.rests
  closure hact := (Logic.still m).weaken (hact _) fun _ _ h => h.rests
  clause hact := (Logic.still m).weaken (hact _) fun _ _ h => h.rests
  method hact := (Logic.still m).weaken (hact _) fun _ _ h => h.rests
  cls hact := (Logic.still m).weaken (hact _) fun _ _ h => h.rests
  iface hact := (Logic.still m).weaken (hact _) fun _ _ h => h.rests

theorem stmtsThrough_default (ss : List Stmt) : stmtsThrough ({} : Pass m) ss = pure ss := by
  obtain ⟨ss', hss', hrests⟩ := default_sound (m := m).stmts ss ()
  have hstays : Change.Stmts Stays () ss ss' () := hrests.steady (fun _ => rfl) fun _ _ _ hs => hs.1
  rw [hss', Stays.stmts_eq hstays]

end Monad

/-! ## Agreement -/

/-- Three enumerations name the same children: what a walk gets to below an expression is what `subexprs` lists, a
closure apart, and `mapChildren` hands over just that. Whatever function it goes on with, it does it to these
expressions one after the other and puts what becomes of them where they were found. A pass goes on below an
expression as `mapChildren` does, unless it has an order of its own there, and a pass that says nothing gives back
every tree as it is. -/
theorem traversals_agree {m : Type → Type} [Monad m] [LawfulMonad m] :
    (∀ e : Expr, (∀ p c, e ≠ .closure p c) → (Part.expr e).children = Part.exprs e.subexprs) ∧
    (∀ e : Expr, e.handed = (Part.expr e).children) ∧
    (∀ (f : Expr → m Expr) (g : Closure → m Closure) (e : Expr), (∀ p c, e ≠ .closure p c) →
      e.mapChildren f g = e.put <$> e.subexprs.mapM f) ∧
    (∀ e : Expr, e.put e.subexprs = e) ∧
    (∀ (e : Expr) (es : List Expr), es.length = e.subexprs.length → (e.put es).subexprs = es) ∧
    (∀ (pass : Pass m) (e : Expr), e.inOrder = true ∨ pass.InOrder →
      e.through pass = pass.expr e (e.mapChildren (·.through pass) (·.through pass))) ∧
    ∀ ss : List Stmt, stmtsThrough ({} : Pass m) ss = pure ss :=
  ⟨fun _ he => Part.ofExpr_eq he, Expr.handed_eq, fun f g _ he => Expr.mapChildren_eq f g he, Expr.put_subexprs,
    fun _ _ => Expr.subexprs_put, fun pass _ h => Expr.through_eq pass h, stmtsThrough_default⟩

/-- The variables of `$a[$i] = [$k => $v]`, noted as they are visited. -/
theorem store_visited :
    let noting : Pass (StateM (List String)) :=
      { expr := fun e below => do
          modify (· ++ e.variableName?.toList)
          below }
    let v (n : String) : Expr := .variable .unknown n false
    let e : Expr := .assign .unknown (.index .unknown (v "a") (some (v "i")))
      (.array .unknown [⟨some (v "k"), v "v", false, false⟩]) none
    (∀ p c, e ≠ .closure p c) ∧ (Part.expr e).children = Part.exprs e.subexprs ∧
      e.mapChildren (·.through noting) (·.through noting) = e.put <$> e.subexprs.mapM (·.through noting) ∧
      noting.InOrder ∧ ((e.through noting).run []).2 = ["a", "i", "k", "v"] ∧
      e.through noting = noting.expr e (e.mapChildren (·.through noting) (·.through noting)) := by
  intro noting v e
  have he (p : Position) (c : Closure) : e ≠ .closure p c := nofun
  have horder : noting.InOrder := ⟨rfl, rfl⟩
  obtain ⟨hchildren, -, hmap, -, -, hthrough, -⟩ := traversals_agree (m := StateM (List String))
  exact ⟨he, hchildren e he, hmap _ _ e he, horder, rfl, hthrough noting e (.inr horder)⟩

end ClassScript
