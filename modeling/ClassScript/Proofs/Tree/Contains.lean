import ClassScript.Tree.Part
/-!
# What stands in a file

`Expr.Has` and `Part.Has` list, place by place, what stands directly in a piece of the tree, and
`SourceFile.Contains` says what stands anywhere in a file. The parts of a file are just these
(`SourceFile.mem_parts_iff`), so a search through the parts of a file leaves nothing out.
-/

namespace ClassScript

/-- An expression stands directly in another. -/
inductive Expr.Has : Expr → Expr → Prop
  | variableName {p e} : Has (.dynamicVariable p e) e
  | itemKey {p is i e} : i ∈ is → i.key = some e → Has (.array p is) e
  | itemValue {p is i} : i ∈ is → Has (.array p is) i.value
  | indexed {p e d} : Has (.index p e d) e
  | indexKey {p t e} : Has (.index p t (some e)) e
  | owner {p e n b} : Has (.property p e n b) e
  | propertyName {p o e b} : Has (.property p o (.dynamic e) b) e
  | receiver {p e n as b} : Has (.methodCall p e n as b) e
  | methodName {p o e as b} : Has (.methodCall p o (.dynamic e) as b) e
  | methodArg {p o n as b a} : a ∈ as → Has (.methodCall p o n as b) a.value
  | staticClass {p e n as} : Has (.staticCall p (.dynamic e) n as) e
  | staticName {p c e as} : Has (.staticCall p c (.dynamic e) as) e
  | staticArg {p c n as a} : a ∈ as → Has (.staticCall p c n as) a.value
  | staticOwner {p e n} : Has (.staticProperty p (.dynamic e) n) e
  | constantOwner {p e n} : Has (.classConst p (.dynamic e) n) e
  | callee {p e as} : Has (.call p (.dynamic e) as) e
  | callArg {p c as a} : a ∈ as → Has (.call p c as) a.value
  | newClass {p e as} : Has (.new p (.dynamic e) as) e
  | newArg {p c as a} : a ∈ as → Has (.new p c as) a.value
  | assigned {p e v d} : Has (.assign p e v d) e
  | assignedValue {p t e d} : Has (.assign p t e d) e
  | updated {p op e v} : Has (.assignOp p op e v) e
  | updatedBy {p op t e} : Has (.assignOp p op t e) e
  | stepped {p op e} : Has (.step p op e) e
  | left {p op e r} : Has (.binary p op e r) e
  | right {p op l e} : Has (.binary p op l e) e
  | operand {p op e} : Has (.unary p op e) e
  | condition {p e t o} : Has (.ternary p e t o) e
  | whenTrue {p c e o} : Has (.ternary p c (some e) o) e
  | otherwise {p c t e} : Has (.ternary p c t e) e
  | tested {p e c} : Has (.instanceOf p e c) e
  | testedClass {p v e} : Has (.instanceOf p v (.dynamic e)) e
  | converted {p t e} : Has (.cast p t e) e
  | checked {p es e} : e ∈ es → Has (.isset p es) e

/-- A part stands directly in another. -/
inductive Part.Has : Part → Part → Prop
  | expr {e e'} : e.Has e' → Has (.expr e) (.expr e')
  | function {p c} : Has (.expr (.closure p c)) (.closure c)
  | closureParam {c p} : p ∈ c.params → Has (.closure c) (.param p)
  | closureBody {c s} : s ∈ c.body → Has (.closure c) (.stmt s)
  | default {p e} : p.default = some e → Has (.param p) (.expr e)
  | expression {e} : Has (.stmt (.expression e)) (.expr e)
  | echoed {p es e} : e ∈ es → Has (.stmt (.echo p es)) (.expr e)
  | returned {p e} : Has (.stmt (.ret p (some e))) (.expr e)
  | branchTest {p e t ei o} : Has (.stmt (.branch p e t ei o)) (.expr e)
  | branchBody {p c t ei o s} : s ∈ t → Has (.stmt (.branch p c t ei o)) (.stmt s)
  | elseIfTest {p c t ei o b} : b ∈ ei → Has (.stmt (.branch p c t ei o)) (.expr b.test)
  | elseIfBody {p c t ei o b s} : b ∈ ei → s ∈ b.body → Has (.stmt (.branch p c t ei o)) (.stmt s)
  | elseBody {p c t ei o s} : s ∈ o → Has (.stmt (.branch p c t ei (some o))) (.stmt s)
  | whileTest {p e b} : Has (.stmt (.whileLoop p e b)) (.expr e)
  | whileBody {p c b s} : s ∈ b → Has (.stmt (.whileLoop p c b)) (.stmt s)
  | forInit {p i c st b e} : e ∈ i → Has (.stmt (.forLoop p i c st b)) (.expr e)
  | forTest {p i c st b e} : e ∈ c → Has (.stmt (.forLoop p i c st b)) (.expr e)
  | forStep {p i c st b e} : e ∈ st → Has (.stmt (.forLoop p i c st b)) (.expr e)
  | forBody {p i c st b s} : s ∈ b → Has (.stmt (.forLoop p i c st b)) (.stmt s)
  | subject {p e k v r b} : Has (.stmt (.foreach p e k v r b)) (.expr e)
  | foreachKey {p t e v r b} : Has (.stmt (.foreach p t (some e) v r b)) (.expr e)
  | foreachValue {p t k e r b} : Has (.stmt (.foreach p t k e r b)) (.expr e)
  | foreachBody {p t k v r b s} : s ∈ b → Has (.stmt (.foreach p t k v r b)) (.stmt s)
  | thrown {p e} : Has (.stmt (.throwValue p e)) (.expr e)
  | tryBody {p b cs f s} : s ∈ b → Has (.stmt (.tryCatch p b cs f)) (.stmt s)
  | clause {p b cs f c} : c ∈ cs → Has (.stmt (.tryCatch p b cs f)) (.clause c)
  | cleanup {p b cs f s} : s ∈ f → Has (.stmt (.tryCatch p b cs (some f))) (.stmt s)
  | block {p b s} : s ∈ b → Has (.stmt (.block p b)) (.stmt s)
  | nsBody {p n b r s} : s ∈ b → Has (.stmt (.nsBlock p n b r)) (.stmt s)
  | cls {c} : Has (.stmt (.classDecl c)) (.cls c)
  | iface {i} : Has (.stmt (.interfaceDecl i)) (.iface i)
  | clauseBody {c s} : s ∈ c.body → Has (.clause c) (.stmt s)
  | methodParam {m p} : p ∈ m.params → Has (.method m) (.param p)
  | methodBody {m b s} : m.body = some b → s ∈ b → Has (.method m) (.stmt s)
  | classProperty {c d e} : .property d ∈ c.members → d.default = some e → Has (.cls c) (.expr e)
  | classConstant {c d} : .const d ∈ c.members → Has (.cls c) (.expr d.value)
  | classMethod {c m} : .method m ∈ c.members → Has (.cls c) (.method m)
  | interfaceConstant {i d} : .const d ∈ i.members → Has (.iface i) (.expr d.value)
  | interfaceMethod {i m} : .method m ∈ i.members → Has (.iface i) (.method m)

/-- A part stands somewhere in a file, where a walk through the file gets to. -/
inductive SourceFile.Contains (f : SourceFile) : Part → Prop
  | top {s} : s ∈ f.stmts → f.Contains (.stmt s)
  | within {p q} : f.Contains p → p.Has q → f.Contains q

/-- The one place that no walk gets to: the default of a property that an interface has. -/
inductive Part.Omits : Part → Part → Prop
  | interfaceProperty {i d e} : .property d ∈ i.members → d.default = some e → Omits (.iface i) (.expr e)

/-- A part stands somewhere in a file, be it where no walk gets to. -/
inductive SourceFile.Holds (f : SourceFile) : Part → Prop
  | top {s} : s ∈ f.stmts → f.Holds (.stmt s)
  | within {p q} : f.Holds p → p.Has q → f.Holds q
  | omitted {p q} : f.Holds p → p.Omits q → f.Holds q

/-! ## Children -/

attribute [local grind intro] Expr.Has Part.Has
attribute [local grind =] Expr.subexprs argExprs

@[local grind =]
theorem MemberName.mem_exprs {n : MemberName} {e : Expr} : e ∈ n.exprs ↔ n = .dynamic e := by
  cases n <;> simp [exprs, eq_comm]

@[local grind =]
theorem ClassRef.mem_exprs {c : ClassRef} {e : Expr} : e ∈ c.exprs ↔ c = .dynamic e := by
  cases c <;> simp [exprs, eq_comm]

@[local grind =]
theorem Callee.mem_exprs {c : Callee} {e : Expr} : e ∈ c.exprs ↔ c = .dynamic e := by
  cases c <;> simp [exprs, eq_comm]

@[local grind =]
theorem mem_itemExprs {is : List ArrayItem} {e : Expr} :
    e ∈ itemExprs is ↔ ∃ i ∈ is, i.key = some e ∨ i.value = e := by
  induction is with
  | nil => simp [itemExprs]
  | cons i is ih => simp [itemExprs, ih, or_assoc, eq_comm]

theorem Expr.has_iff {e c : Expr} : e.Has c ↔ c ∈ e.subexprs := by
  constructor
  · intro h
    cases h <;> grind
  · intro h
    cases e <;> grind

namespace Part

attribute [local grind =] ofStmt exprs stmts

@[local grind =]
theorem mem_getD_nil {o : Option (List Stmt)} {s : Stmt} : s ∈ o.getD [] ↔ ∃ ss, o = some ss ∧ s ∈ ss := by
  cases o <;> simp

@[local grind =]
theorem mem_elseIfs {bs : List ElseIf} {c : Part} :
    c ∈ elseIfs bs ↔ ∃ b ∈ bs, .expr b.test = c ∨ ∃ s ∈ b.body, .stmt s = c := by
  induction bs with
  | nil => simp [elseIfs]
  | cons b bs ih => simp [elseIfs, stmts, ih, or_assoc, eq_comm]

@[local grind =]
theorem mem_members {ms : List Member} {c : Part} :
    c ∈ members ms ↔ ∃ m ∈ ms, (∃ d e, m = .property d ∧ d.default = some e ∧ .expr e = c) ∨
      (∃ d, m = .const d ∧ .expr d.value = c) ∨ ∃ d, m = .method d ∧ .method d = c := by
  induction ms with
  | nil => simp [members]
  | cons m ms ih => cases m <;> simp [members, exprs, ih, eq_comm]

@[local grind =]
theorem mem_interfaceMembers {ms : List Member} {c : Part} :
    c ∈ interfaceMembers ms ↔ ∃ m ∈ ms, (∃ d, m = .const d ∧ .expr d.value = c) ∨
      ∃ d, m = .method d ∧ .method d = c := by
  induction ms with
  | nil => simp [interfaceMembers]
  | cons m ms ih => cases m <;> simp [interfaceMembers, ih, eq_comm]

theorem stmt_has_iff {s : Stmt} {c : Part} : (Part.stmt s).Has c ↔ c ∈ ofStmt s := by
  constructor
  · intro h
    cases h with
    | elseIfBody hb hs =>
      have hmem := mem_elseIfs.2 ⟨_, hb, .inr ⟨_, hs, rfl⟩⟩
      exact List.mem_cons_of_mem _ (List.mem_append_left _ (List.mem_append_right _ hmem))
    | _ => grind
  · intro h
    cases s <;> grind

theorem expr_has_iff {e : Expr} {c : Part} : (Part.expr e).Has c ↔ c ∈ ofExpr e := by
  rw [mem_ofExpr]
  constructor
  · rintro (h | _)
    · exact .inl ⟨_, Expr.has_iff.1 h, rfl⟩
    · exact .inr ⟨_, _, rfl, rfl⟩
  · rintro (⟨e', he', rfl⟩ | ⟨p, f, rfl, rfl⟩)
    · exact .expr (Expr.has_iff.2 he')
    · exact .function

/-- What stands directly in a part are its children. -/
theorem has_iff {p c : Part} : p.Has c ↔ c ∈ p.children := by
  cases p with
  | expr e => exact expr_has_iff
  | stmt s => exact stmt_has_iff
  | closure | param | clause | method | cls | iface =>
    constructor
    · intro h
      cases h <;> grind [children]
    · intro h
      grind [children]

/-- Below a part stands all that stands in a part below it. -/
theorem mem_all_of_mem_children {p q c : Part} (hq : q ∈ p.all) (hc : c ∈ q.children) : c ∈ p.all := by
  induction p using Part.induction with
  | step p ih =>
    rw [all_eq, List.mem_cons, List.mem_flatMap] at hq ⊢
    rcases hq with rfl | ⟨d, hd, hq⟩
    · refine .inr ⟨c, hc, ?_⟩
      rw [all_eq]
      exact List.mem_cons_self
    · exact .inr ⟨d, hd, ih d hd hq⟩

end Part

namespace SourceFile

theorem Contains.all {f : SourceFile} {p : Part} (h : f.Contains p) : ∀ q ∈ p.all, f.Contains q := by
  induction p using Part.induction with
  | step p ih =>
    intro q hq
    rw [Part.all_eq, List.mem_cons, List.mem_flatMap] at hq
    rcases hq with rfl | ⟨c, hc, hq⟩
    · exact h
    · exact ih c hc (h.within (Part.has_iff.2 hc)) q hq

/-- The parts of a file are what it contains. -/
theorem mem_parts_iff {f : SourceFile} {p : Part} : p ∈ f.parts ↔ f.Contains p := by
  constructor
  · intro h
    obtain ⟨_, hstmt, hp⟩ := List.mem_flatMap.1 h
    obtain ⟨s, hs, rfl⟩ := List.mem_map.1 hstmt
    exact (Contains.top hs).all p hp
  · intro h
    induction h with
    | top hs =>
      refine List.mem_flatMap.2 ⟨_, List.mem_map_of_mem hs, ?_⟩
      rw [Part.all_eq]
      exact List.mem_cons_self
    | within _ hpq ih =>
      obtain ⟨s, hs, hp⟩ := List.mem_flatMap.1 ih
      exact List.mem_flatMap.2 ⟨s, hs, Part.mem_all_of_mem_children hp (Part.has_iff.1 hpq)⟩

end SourceFile

end ClassScript
