import ClassScript.Tree.Basic
/-!
# Parts of the tree

Whatever has a meaning of its own in the tree is a part. Its children are the parts directly below
it, in source order; what holds "anywhere in a file" is said of all parts below its statements.

`Part.fold` reduces a part from the results of its children. `fold_eq` is its equation, and
`Part.induction` the induction that goes with it.
-/

namespace ClassScript

inductive Part where
  | expr (e : Expr)
  | stmt (s : Stmt)
  | closure (c : Closure)
  | param (p : Param)
  | clause (c : Catch)
  | method (m : Method)
  | cls (c : Class)
  | iface (i : Interface)

/-! ## Expressions directly below an expression -/

def MemberName.exprs : MemberName → List Expr
  | .dynamic e => [e]
  | .ident _ => []

def ClassRef.exprs : ClassRef → List Expr
  | .dynamic e => [e]
  | _ => []

def Callee.exprs : Callee → List Expr
  | .dynamic e => [e]
  | .named _ => []

def argExprs (args : List Arg) : List Expr := args.map (·.value)

def itemExprs : List ArrayItem → List Expr
  | [] => []
  | i :: rest => i.key.toList ++ i.value :: itemExprs rest

/-- The expressions directly below an expression, in source order; the parameters and the body of a
closure are none of them. -/
def Expr.subexprs : Expr → List Expr
  | .variable .. | .int .. | .float .. | .string .. | .bool .. | .null _ | .const ..
  | .anonymousClass _ | .closure .. => []
  | .dynamicVariable _ e => [e]
  | .array _ items => itemExprs items
  | .index _ t d => t :: d.toList
  | .property _ o n _ => o :: n.exprs
  | .methodCall _ o n as _ => o :: (n.exprs ++ argExprs as)
  | .staticCall _ c n as => c.exprs ++ n.exprs ++ argExprs as
  | .staticProperty _ c _ => c.exprs
  | .classConst _ c _ => c.exprs
  | .call _ c as => c.exprs ++ argExprs as
  | .new _ c as => c.exprs ++ argExprs as
  | .assign _ t v _ => [t, v]
  | .assignOp _ _ t v => [t, v]
  | .step _ _ t => [t]
  | .binary _ _ l r => [l, r]
  | .unary _ _ e => [e]
  | .ternary _ c t o => c :: (t.toList ++ [o])
  | .instanceOf _ v c => v :: c.exprs
  | .cast _ _ e => [e]
  | .isset _ es => es

/-! ## Children -/

namespace Part

def exprs (es : List Expr) : List Part := es.map .expr

def stmts (ss : List Stmt) : List Part := ss.map .stmt

def elseIfs : List ElseIf → List Part
  | [] => []
  | b :: rest => .expr b.test :: (stmts b.body ++ elseIfs rest)

def members : List Member → List Part
  | [] => []
  | .property d :: rest => exprs d.default.toList ++ members rest
  | .const d :: rest => .expr d.value :: members rest
  | .method d :: rest => .method d :: members rest
  | .traitUse _ :: rest => members rest

/-- An interface has no state: a property among its members is left alone. -/
def interfaceMembers : List Member → List Part
  | [] => []
  | .const d :: rest => .expr d.value :: interfaceMembers rest
  | .method d :: rest => .method d :: interfaceMembers rest
  | .property _ :: rest | .traitUse _ :: rest => interfaceMembers rest

def ofMemberName : MemberName → List Part
  | .dynamic e => [.expr e]
  | .ident _ => []

def ofClassRef : ClassRef → List Part
  | .dynamic e => [.expr e]
  | .named _ | .self | .parent | .static => []

def ofCallee : Callee → List Part
  | .dynamic e => [.expr e]
  | .named _ => []

def ofArgs : List Arg → List Part
  | [] => []
  | a :: rest => .expr a.value :: ofArgs rest

def ofItems : List ArrayItem → List Part
  | [] => []
  | i :: rest => exprs i.key.toList ++ .expr i.value :: ofItems rest

def ofExpr : Expr → List Part
  | .variable .. | .int .. | .float .. | .string .. | .bool .. | .null _ | .const ..
  | .anonymousClass _ => []
  | .dynamicVariable _ e => [.expr e]
  | .array _ items => ofItems items
  | .index _ t d => .expr t :: exprs d.toList
  | .property _ o n _ => .expr o :: ofMemberName n
  | .methodCall _ o n as _ => .expr o :: (ofMemberName n ++ ofArgs as)
  | .staticCall _ c n as => ofClassRef c ++ ofMemberName n ++ ofArgs as
  | .staticProperty _ c _ => ofClassRef c
  | .classConst _ c _ => ofClassRef c
  | .call _ c as => ofCallee c ++ ofArgs as
  | .new _ c as => ofClassRef c ++ ofArgs as
  | .assign _ t v _ => [.expr t, .expr v]
  | .assignOp _ _ t v => [.expr t, .expr v]
  | .step _ _ t => [.expr t]
  | .binary _ _ l r => [.expr l, .expr r]
  | .unary _ _ e => [.expr e]
  | .ternary _ c t o => .expr c :: (exprs t.toList ++ [.expr o])
  | .instanceOf _ v c => .expr v :: ofClassRef c
  | .cast _ _ e => [.expr e]
  | .isset _ es => exprs es
  | .closure _ c => [.closure c]

def ofStmt : Stmt → List Part
  | .expression e => [.expr e]
  | .echo _ es => exprs es
  | .ret _ v => exprs v.toList
  | .branch _ c t ei o => .expr c :: (stmts t ++ elseIfs ei ++ stmts (o.getD []))
  | .whileLoop _ c b => .expr c :: stmts b
  | .forLoop _ i c s b => exprs i ++ exprs c ++ exprs s ++ stmts b
  | .foreach _ s k v _ b => .expr s :: (exprs k.toList ++ .expr v :: stmts b)
  | .throwValue _ v => [.expr v]
  | .tryCatch _ b cs f => stmts b ++ cs.map .clause ++ stmts (f.getD [])
  | .block _ b => stmts b
  | .nsBlock _ _ b _ => stmts b
  | .classDecl c => [.cls c]
  | .interfaceDecl i => [.iface i]
  | .breakLoop _ | .continueLoop _ | .imports .. | .functionDecl .. | .nop _ => []

/-- The parts directly below a part, in source order. -/
def children : Part → List Part
  | expr e => ofExpr e
  | stmt s => ofStmt s
  | closure c => c.params.map .param ++ stmts c.body
  | param p => exprs p.default.toList
  | clause c => stmts c.body
  | method m => m.params.map .param ++ stmts (m.body.getD [])
  | cls c => members c.members
  | iface i => interfaceMembers i.members

/-- What is walked into below an interface is what it would be below a class without its properties. -/
theorem interfaceMembers_eq (ms : List Member) :
    interfaceMembers ms = members (ms.filter (·.property?.isNone)) := by
  induction ms with
  | nil => rfl
  | cons m rest ih =>
    cases m with
    | property d => exact ih
    | const d => exact congrArg (.expr d.value :: ·) ih
    | method d => exact congrArg (.method d :: ·) ih
    | traitUse ns => exact ih

theorem interfaceMembers_map {f : Member → Member} (hf : ∀ m, (f m).property?.isNone = m.property?.isNone)
    (ms : List Member) : interfaceMembers (ms.map f) = members ((ms.filter (·.property?.isNone)).map f) := by
  rw [interfaceMembers_eq, List.filter_map]
  simp only [Function.comp_def, hf]

/-- A class leaves nothing out that an interface has. -/
theorem interfaceMembers_subset (ms : List Member) : interfaceMembers ms ⊆ members ms := by
  induction ms with
  | nil => exact List.Subset.refl []
  | cons m rest ih =>
    cases m with
    | property d => exact List.subset_append_of_subset_right _ ih
    | const d => exact List.cons_subset_cons _ ih
    | method d => exact List.cons_subset_cons _ ih
    | traitUse ns => exact ih

/-! ### The children of an expression are the expressions directly below it -/

@[simp]
theorem exprs_append (es fs : List Expr) : exprs (es ++ fs) = exprs es ++ exprs fs := List.map_append

theorem ofMemberName_eq (n : MemberName) : ofMemberName n = exprs n.exprs := by
  cases n <;> rfl

theorem ofClassRef_eq (c : ClassRef) : ofClassRef c = exprs c.exprs := by
  cases c <;> rfl

theorem ofCallee_eq (c : Callee) : ofCallee c = exprs c.exprs := by
  cases c <;> rfl

theorem ofArgs_eq (as : List Arg) : ofArgs as = exprs (argExprs as) := by
  induction as with
  | nil => rfl
  | cons a rest ih => rw [ofArgs, ih]; rfl

theorem ofItems_eq (is : List ArrayItem) : ofItems is = exprs (itemExprs is) := by
  induction is with
  | nil => rfl
  | cons i rest ih => rw [ofItems, itemExprs, exprs_append, ih]; rfl

/-- What is walked into below an expression is what `subexprs` lists, a closure apart, which is a
part of its own. -/
theorem ofExpr_eq {e : Expr} (h : ∀ p c, e ≠ .closure p c) : ofExpr e = exprs e.subexprs := by
  cases e with
  | closure p c => exact absurd rfl (h p c)
  | array _ is => exact ofItems_eq is
  | property _ o n _ => rw [ofExpr, ofMemberName_eq]; rfl
  | methodCall _ o n as _ =>
    rw [ofExpr, ofMemberName_eq, ofArgs_eq, ← exprs_append]; rfl
  | staticCall _ c n as =>
    rw [ofExpr, ofClassRef_eq, ofMemberName_eq, ofArgs_eq, ← exprs_append, ← exprs_append]; rfl
  | staticProperty _ c _ => exact ofClassRef_eq c
  | classConst _ c _ => exact ofClassRef_eq c
  | call _ c as => rw [ofExpr, ofCallee_eq, ofArgs_eq, ← exprs_append]; rfl
  | new _ c as => rw [ofExpr, ofClassRef_eq, ofArgs_eq, ← exprs_append]; rfl
  | ternary _ c t o => cases t <;> rfl
  | instanceOf _ v c => rw [ofExpr, ofClassRef_eq]; rfl
  | _ => rfl

theorem mem_ofExpr {e : Expr} {c : Part} :
    c ∈ ofExpr e ↔ (∃ x ∈ e.subexprs, .expr x = c) ∨ ∃ p f, e = .closure p f ∧ .closure f = c := by
  by_cases h : ∃ p f, e = .closure p f
  · obtain ⟨p, f, rfl⟩ := h
    rw [ofExpr, List.mem_singleton]
    constructor
    · rintro rfl
      exact .inr ⟨p, f, rfl, rfl⟩
    · rintro (⟨x, hx, _⟩ | ⟨_, _, he, rfl⟩)
      · cases hx
      · cases he; rfl
  · have hnot : ∀ p f, e ≠ .closure p f := fun p f he => h ⟨p, f, he⟩
    rw [ofExpr_eq hnot, exprs, List.mem_map]
    exact ⟨.inl, fun hc => hc.resolve_right fun ⟨p, f, he, _⟩ => hnot p f he⟩

/-! ## Size -/

/-- The size of a part, which its children stay below. -/
noncomputable def size : Part → Nat
  | expr e => sizeOf e
  | stmt s => sizeOf s
  | closure c => sizeOf c
  | param p => sizeOf p
  | clause c => sizeOf c
  | method m => sizeOf m
  | cls c => sizeOf c
  | iface i => sizeOf i

end Part

theorem MemberName.sizeOf_lt_of_mem {n : MemberName} {e : Expr} (h : e ∈ n.exprs) :
    sizeOf e < sizeOf n := by
  cases n <;> simp_all [MemberName.exprs]

theorem ClassRef.sizeOf_lt_of_mem {c : ClassRef} {e : Expr} (h : e ∈ c.exprs) :
    sizeOf e < sizeOf c := by
  cases c <;> simp_all [ClassRef.exprs]

theorem Callee.sizeOf_lt_of_mem {c : Callee} {e : Expr} (h : e ∈ c.exprs) :
    sizeOf e < sizeOf c := by
  cases c <;> simp_all [Callee.exprs]

theorem sizeOf_lt_of_mem_argExprs {as : List Arg} {e : Expr} (h : e ∈ argExprs as) :
    sizeOf e < sizeOf as := by
  obtain ⟨a, ha, rfl⟩ := List.mem_map.1 h
  have := List.sizeOf_lt_of_mem ha
  cases a
  simp at this ⊢
  omega

theorem sizeOf_lt_of_mem_toList {o : Option Expr} {e : Expr} (h : e ∈ o.toList) :
    sizeOf e < sizeOf o := by
  cases o <;> simp_all

theorem sizeOf_lt_of_mem_itemExprs {is : List ArrayItem} {e : Expr} (h : e ∈ itemExprs is) :
    sizeOf e < sizeOf is := by
  induction is with
  | nil => simp [itemExprs] at h
  | cons i rest ih =>
    obtain ⟨k, v, r, u⟩ := i
    simp only [itemExprs, List.mem_append, List.mem_cons] at h
    rcases h with h | rfl | h
    · have := sizeOf_lt_of_mem_toList h; simp; omega
    · simp; omega
    · have := ih h; simp; omega

theorem Expr.sizeOf_lt_of_mem_subexprs {e c : Expr} (h : c ∈ e.subexprs) : sizeOf c < sizeOf e := by
  cases e <;> simp only [Expr.subexprs, List.mem_cons, List.mem_append, List.not_mem_nil, or_false] at h
  case array is => have := sizeOf_lt_of_mem_itemExprs h; simp; omega
  case isset es => have := List.sizeOf_lt_of_mem h; simp; omega
  all_goals grind [Expr.dynamicVariable.sizeOf_spec, Expr.index.sizeOf_spec, Expr.property.sizeOf_spec,
    Expr.methodCall.sizeOf_spec, Expr.staticCall.sizeOf_spec, Expr.staticProperty.sizeOf_spec,
    Expr.classConst.sizeOf_spec, Expr.call.sizeOf_spec, Expr.new.sizeOf_spec,
    Expr.assign.sizeOf_spec, Expr.assignOp.sizeOf_spec, Expr.step.sizeOf_spec,
    Expr.binary.sizeOf_spec, Expr.unary.sizeOf_spec, Expr.ternary.sizeOf_spec,
    Expr.instanceOf.sizeOf_spec, Expr.cast.sizeOf_spec, → MemberName.sizeOf_lt_of_mem,
    → ClassRef.sizeOf_lt_of_mem, → Callee.sizeOf_lt_of_mem, → sizeOf_lt_of_mem_argExprs,
    → sizeOf_lt_of_mem_toList]

namespace Part

theorem size_lt_of_mem_exprs {es : List Expr} {c : Part} (h : c ∈ exprs es) : c.size < sizeOf es := by
  obtain ⟨e, he, rfl⟩ := List.mem_map.1 h
  exact List.sizeOf_lt_of_mem he

theorem size_lt_of_mem_exprs_toList {o : Option Expr} {c : Part} (h : c ∈ exprs o.toList) :
    c.size < sizeOf o := by
  obtain ⟨e, he, rfl⟩ := List.mem_map.1 h
  exact sizeOf_lt_of_mem_toList he

theorem size_lt_of_mem_stmts {ss : List Stmt} {c : Part} (h : c ∈ stmts ss) : c.size < sizeOf ss := by
  obtain ⟨s, hs, rfl⟩ := List.mem_map.1 h
  exact List.sizeOf_lt_of_mem hs

theorem size_lt_of_mem_stmts_getD {o : Option (List Stmt)} {c : Part} (h : c ∈ stmts (o.getD [])) :
    c.size < sizeOf o := by
  cases o with
  | none => simp [stmts] at h
  | some ss => have : c.size < sizeOf ss := size_lt_of_mem_stmts h; simp; omega

theorem size_lt_of_mem_params {ps : List Param} {c : Part} (h : c ∈ ps.map .param) :
    c.size < sizeOf ps := by
  obtain ⟨p, hp, rfl⟩ := List.mem_map.1 h
  exact List.sizeOf_lt_of_mem hp

theorem size_lt_of_mem_catches {cs : List Catch} {c : Part} (h : c ∈ cs.map .clause) :
    c.size < sizeOf cs := by
  obtain ⟨k, hk, rfl⟩ := List.mem_map.1 h
  exact List.sizeOf_lt_of_mem hk

theorem size_lt_of_mem_elseIfs {bs : List ElseIf} {c : Part} (h : c ∈ elseIfs bs) :
    c.size < sizeOf bs := by
  induction bs with
  | nil => simp [elseIfs] at h
  | cons b rest ih =>
    obtain ⟨t, body⟩ := b
    simp only [elseIfs, List.mem_cons, List.mem_append] at h
    rcases h with rfl | h | h
    · simp [size]; omega
    · have := size_lt_of_mem_stmts h; simp; omega
    · have := ih h; simp; omega

theorem size_lt_of_mem_members {ms : List Member} {c : Part} (h : c ∈ members ms) :
    c.size < sizeOf ms := by
  induction ms with
  | nil => simp [members] at h
  | cons m rest ih =>
    rcases m with ⟨d⟩ | ⟨d⟩ | ⟨d⟩ | ⟨ns⟩
    · obtain ⟨n, df, ms, r, p⟩ := d
      simp only [members, List.mem_append] at h
      rcases h with h | h
      · have := size_lt_of_mem_exprs_toList h; simp; omega
      · have := ih h; simp; omega
    · obtain ⟨n, v, ms, r, p⟩ := d
      simp only [members, List.mem_cons] at h
      rcases h with rfl | h
      · simp [size]; omega
      · have := ih h; simp; omega
    · simp only [members, List.mem_cons] at h
      rcases h with rfl | h
      · simp [size]; omega
      · have := ih h; simp; omega
    · simp only [members] at h
      have := ih h; simp; omega

theorem size_lt_of_mem_ofStmt {s : Stmt} {c : Part} (h : c ∈ ofStmt s) : c.size < sizeOf s := by
  cases s <;> simp only [ofStmt, List.mem_cons, List.mem_append, List.not_mem_nil, or_false] at h
  all_goals grind [Stmt.expression.sizeOf_spec, Stmt.echo.sizeOf_spec, Stmt.ret.sizeOf_spec,
    Stmt.branch.sizeOf_spec, Stmt.whileLoop.sizeOf_spec, Stmt.forLoop.sizeOf_spec,
    Stmt.foreach.sizeOf_spec, Stmt.throwValue.sizeOf_spec, Stmt.tryCatch.sizeOf_spec,
    Stmt.block.sizeOf_spec, Stmt.nsBlock.sizeOf_spec, Stmt.classDecl.sizeOf_spec,
    Stmt.interfaceDecl.sizeOf_spec, size, → size_lt_of_mem_exprs, → size_lt_of_mem_stmts,
    → size_lt_of_mem_exprs_toList, → size_lt_of_mem_stmts_getD, → size_lt_of_mem_catches,
    → size_lt_of_mem_elseIfs]

theorem size_lt_of_mem_ofExpr {e : Expr} {c : Part} (h : c ∈ ofExpr e) : c.size < sizeOf e := by
  rcases mem_ofExpr.1 h with ⟨x, hx, rfl⟩ | ⟨p, f, rfl, rfl⟩
  · exact Expr.sizeOf_lt_of_mem_subexprs hx
  · simp only [size, Expr.closure.sizeOf_spec]; omega

/-- Children are smaller. -/
theorem size_lt_of_mem_children {p c : Part} (h : c ∈ p.children) : c.size < p.size := by
  cases p with
  | expr e => exact size_lt_of_mem_ofExpr h
  | stmt s => exact size_lt_of_mem_ofStmt h
  | closure f =>
    obtain ⟨ps, cs, b, r, st, it⟩ := f
    change c.size < sizeOf (Closure.mk ps cs b r st it)
    rcases List.mem_append.1 h with h | h
    · have : c.size < sizeOf ps := size_lt_of_mem_params h; simp; omega
    · have : c.size < sizeOf b := size_lt_of_mem_stmts h; simp; omega
  | param q =>
    obtain ⟨n, t, d, r, v, pr, pos⟩ := q
    change c.size < sizeOf (Param.mk n t d r v pr pos)
    have : c.size < sizeOf d := size_lt_of_mem_exprs_toList h
    simp; omega
  | clause k =>
    obtain ⟨t, v, b, pos⟩ := k
    change c.size < sizeOf (Catch.mk t v b pos)
    have : c.size < sizeOf b := size_lt_of_mem_stmts h
    simp; omega
  | method m =>
    obtain ⟨n, ps, b, r, mo, re, pos⟩ := m
    change c.size < sizeOf (Method.mk n ps b r mo re pos)
    rcases List.mem_append.1 h with h | h
    · have : c.size < sizeOf ps := size_lt_of_mem_params h; simp; omega
    · have : c.size < sizeOf b := size_lt_of_mem_stmts_getD h; simp; omega
  | cls k =>
    obtain ⟨n, pa, is, ms, a, f, pos, q, ap⟩ := k
    change c.size < sizeOf (Class.mk n pa is ms a f pos q ap)
    have : c.size < sizeOf ms := size_lt_of_mem_members h
    simp; omega
  | iface i =>
    obtain ⟨n, ps, ms, pos, q⟩ := i
    change c.size < sizeOf (Interface.mk n ps ms pos q)
    have : c.size < sizeOf ms := size_lt_of_mem_members (interfaceMembers_subset ms h)
    simp; omega

/-! ## Reduction -/

/-- Reduces a part from the results of its children. -/
def fold {α : Type} (f : Part → List α → α) (p : Part) : α :=
  f p (p.children.attach.map fun ⟨c, _⟩ => c.fold f)
termination_by p.size
decreasing_by exact size_lt_of_mem_children (by assumption)

theorem fold_eq {α : Type} (f : Part → List α → α) (p : Part) :
    p.fold f = f p (p.children.map (·.fold f)) := by
  rw [fold]
  congr 1
  exact List.attach_map_val (f := fun c => fold f c) ▸ rfl

/-- What every part inherits from its children holds of all parts. -/
theorem induction {P : Part → Prop} (step : ∀ p, (∀ c ∈ p.children, P c) → P p) (p : Part) : P p :=
  step p fun c _ => induction step c
termination_by p.size
decreasing_by exact size_lt_of_mem_children (by assumption)

/-- The part and all parts below it, each before its children. -/
def all (p : Part) : List Part := p.fold fun p below => p :: below.flatten

theorem all_eq (p : Part) : p.all = p :: p.children.flatMap all := by
  rw [all, fold_eq, List.flatMap_def]
  rfl

end Part

/-- All parts of a file, in source order. -/
def SourceFile.parts (f : SourceFile) : List Part := (Part.stmts f.stmts).flatMap Part.all

/-- Reduces an expression from the results of the expressions directly below it. -/
def Expr.fold {α : Type} (f : Expr → List α → α) (e : Expr) : α :=
  f e (e.subexprs.attach.map fun ⟨c, _⟩ => c.fold f)
termination_by sizeOf e
decreasing_by exact Expr.sizeOf_lt_of_mem_subexprs (by assumption)

end ClassScript
