import ClassScript.Proofs.Script.Reading
/-!
# Printed text determines the node

The lexemes of a plain node are read as the node itself (`Node.reads`), and its text spells these
lexemes. So two plain expressions, or two plain statements, with the same text are the same
(`print_injective`).
-/

namespace ClassScript.Script

open Lexeme

namespace Node

/-! ## First lexemes -/

theorem startsOperation_of_isOperand {l : Lexeme} (h : l.isOperand = true) : startsOperation l = true := by
  simp [startsOperation, h]

theorem wrapsAsStatement_of_wrapsAsOperand {n : Node} (h : n.wrapsAsOperand = false) :
    n.wrapsAsStatement = false := by
  cases n with
  | function | object => cases h
  | _ => rfl

theorem wrapsAsStatement_of_wrapsInTernary {n : Node} (h : n.wrapsInTernary = false) :
    n.wrapsAsStatement = false := by
  cases n with
  | function | object => cases h
  | _ => rfl

theorem of_isAssignable {n : Node} (h : n.isAssignable = true) :
    n.isStatement = false ∧ n.wrapsInTernary = false := by
  cases n with
  | identifier | property => exact ⟨rfl, rfl⟩
  | _ => cases h

/-- An expression that needs no parentheses as a statement starts with an operand or an operator. -/
theorem startsWith_operation {n : Node} (h : n.Readable) (hn : n.isStatement = false)
    (hwrap : n.wrapsAsStatement = false) : StartsWith startsOperation n.lexemes := by
  induction n using induction_children with
  | step n ih => cases n with
    | identifier | int | float | string | property | call | new =>
      exact (startsWith_operand h hn rfl).mono fun _ => startsOperation_of_isOperand
    | unary op x => exact ⟨_, _, rfl, by simp [startsOperation, unaryOperator?_symbol]⟩
    | binary op l r =>
      have hl : l ∈ (binary op l r).children := List.mem_cons_self
      refine StartsWith.append (.wrapped rfl fun hwrap => ?_) _
      exact ih l hl (h.child hl) (h.expression List.mem_cons_self) (wrapsAsStatement_of_wrapsAsOperand hwrap)
    | ternary c t o =>
      have hc : c ∈ (ternary c t o).children := List.mem_cons_self
      refine StartsWith.append (.wrapped rfl fun hwrap => ?_) _
      exact ih c hc (h.child hc) (h.expression List.mem_cons_self) (wrapsAsStatement_of_wrapsInTernary hwrap)
    | assign t v =>
      have ht : t ∈ (assign t v).children := List.mem_cons_self
      obtain ⟨hstmt, hwrap⟩ := of_isAssignable (h.role (r := .target) List.mem_cons_self)
      exact (ih t ht (h.child ht) hstmt (wrapsAsStatement_of_wrapsInTernary hwrap)).append _
    | function | object => cases hwrap
    | _ => cases hn

theorem startsWith_expr {n : Node} (h : n.Readable) (hn : n.isStatement = false) :
    StartsWith startsExpr n.lexemes := by
  cases hwrap : n.wrapsAsStatement with
  | false => exact (startsWith_operation h hn hwrap).mono fun l hl => by simp [startsExpr, hl]
  | true => cases n with
    | function => exact ⟨_, _, rfl, rfl⟩
    | object => exact ⟨_, _, rfl, rfl⟩
    | _ => cases hwrap

/-- The part of a statement that is an expression. -/
theorem startsWith_wrapped {e : Node} (h : e.Readable) (he : e.isStatement = false) :
    StartsWith startsOperation (wrapped e.wrapsAsStatement e.lexemes) :=
  .wrapped rfl (startsWith_operation h he)

theorem startsWith_stmt {n : Node} (h : n.Readable) (hn : n.isStatement = true) :
    StartsWith startsStmt n.lexemes := by
  cases n with
  | statement e =>
    have he := startsWith_wrapped (h.child List.mem_cons_self) (h.expression List.mem_cons_self)
    exact (he.mono fun _ => startsStmt_of_startsOperation).append _
  | nop => exact h.plain.elim
  | block | declare | ret | branch | whileLoop | forLoop | tryCatch | throwValue | breakLoop | continueLoop =>
    exact ⟨_, _, rfl, rfl⟩
  | _ => cases hn

/-! ## Reading nodes -/

/-- The lexemes of the node are read as the node, where its kind can stand without parentheses. -/
def Reads (n : Node) : Prop :=
  match n with
  | unary .. => ReadsUnary n.lexemes n
  | binary .. => ReadsOperation n.lexemes n
  | ternary .. | assign .. => ReadsExpr n.lexemes n
  | block _ => ReadsBlock n.lexemes n
  | statement _ | declare .. | ret _ | branch .. | whileLoop .. | forLoop .. | tryCatch .. | throwValue _
  | breakLoop | continueLoop | nop => ReadsStmt n.lexemes n
  | _ => ReadsOperand n.lexemes n

/-- A plain expression that its lexemes are read as. -/
structure IsRead (n : Node) : Prop where
  readable : n.Readable
  expression : n.isStatement = false
  reads : n.Reads

namespace IsRead

variable {n : Node}

theorem operand (h : n.IsRead) (hwrap : n.wrapsUnderUnary = false) : ReadsOperand n.lexemes n := by
  obtain ⟨-, hn, hreads⟩ := h
  cases n with
  | identifier | int | float | string | property | call | new => exact hreads
  | unary | binary | ternary | assign | function | object => cases hwrap
  | _ => cases hn

theorem unary (h : n.IsRead) (hwrap : n.wrapsAsOperand = false) : ReadsUnary n.lexemes n := by
  cases n with
  | unary => exact h.reads
  | identifier | int | float | string | property | call | new =>
    exact (h.operand rfl).unary_of_starts (startsWith_operand h.readable rfl rfl)
  | binary | ternary | assign | function | object => cases hwrap
  | _ => cases h.expression

theorem operation (h : n.IsRead) (hwrap : n.wrapsInTernary = false) : ReadsOperation n.lexemes n := by
  cases n with
  | binary => exact h.reads
  | unary | identifier | int | float | string | property | call | new => exact (h.unary rfl).operation
  | ternary | assign | function | object => cases hwrap
  | _ => cases h.expression

theorem expr (h : n.IsRead) : ReadsExpr n.lexemes n := by
  cases n with
  | ternary | assign => exact h.reads
  | function | object => exact (ReadsOperand.unary h.reads ⟨_, _, rfl, rfl⟩).operation.expr
  | binary | unary | identifier | int | float | string | property | call | new =>
    exact (h.operation rfl).expr
  | _ => cases h.expression

theorem readsBack (h : n.IsRead) : ReadsBack n := ⟨startsWith_expr h.readable h.expression, h.expr⟩

theorem wrapped (h : n.IsRead) {wrap : Bool} (hwrap : wrap = false → n.wrapsUnderUnary = false) :
    ReadsOperand (wrapped wrap n.lexemes) n :=
  h.expr.wrapped fun hw => h.operand (hwrap hw)

theorem asOperand (h : n.IsRead) : ReadsUnary (Lexeme.wrapped n.wrapsAsOperand n.lexemes) n := by
  cases hwrap : n.wrapsAsOperand with
  | false => exact h.unary hwrap
  | true => exact h.expr.parenthesised

theorem inTernary (h : n.IsRead) : ReadsOperation (Lexeme.wrapped n.wrapsInTernary n.lexemes) n := by
  cases hwrap : n.wrapsInTernary with
  | false => exact h.operation hwrap
  | true => exact h.expr.parenthesised.operation

theorem asStatement (h : n.IsRead) : ReadsExpr (Lexeme.wrapped n.wrapsAsStatement n.lexemes) n := by
  cases n.wrapsAsStatement with
  | false => exact h.expr
  | true => exact h.expr.parenthesised.operation.expr

end IsRead

theorem Reads.block {n : Node} (h : n.Reads) (hn : n.isBlock = true) : ReadsBlock n.lexemes n := by
  cases n with
  | block => exact h
  | _ => cases hn

theorem Reads.stmt {n : Node} (h : n.Reads) (hn : n.isStatement = true) : ReadsStmt n.lexemes n := by
  cases n with
  | block => exact readsStmt_block h
  | statement | declare | ret | branch | whileLoop | forLoop | tryCatch | throwValue | breakLoop | continueLoop
  | nop => exact h
  | _ => cases hn

theorem mem_children_of_roles {n c : Node} {r : Role} (h : (r, c) ∈ n.roles) : c ∈ n.children := by
  rw [children_eq_roles]
  exact List.mem_map.2 ⟨(r, c), h, rfl⟩

theorem isStatement_of_isBlock {n : Node} (h : n.isBlock = true ∨ n.isBranch = true) :
    n.isStatement = true := by
  cases n with
  | block | branch => rfl
  | _ => rcases h with h | h <;> cases h

theorem isStatement_of_isIdentifier {n : Node} (h : n.isIdentifier = true) : n.isStatement = false := by
  cases n with
  | identifier => rfl
  | _ => cases h

section Children

variable {n c : Node} (h : n.Readable) (ih : ∀ c ∈ n.children, c.Reads)

include h ih

theorem isRead_of_role {r : Role} (hc : (r, c) ∈ n.roles) (he : c.isStatement = false) : c.IsRead :=
  ⟨h.child (mem_children_of_roles hc), he, ih c (mem_children_of_roles hc)⟩

/-- A node is read if its children are. -/
theorem reads_of_children : n.Reads := by
  have hexpr : ∀ {c}, (.expression, c) ∈ n.roles → c.IsRead :=
    fun hc => isRead_of_role h ih hc (h.expression hc)
  have hbody : ∀ {c}, (.body, c) ∈ n.roles → ReadsBlock c.lexemes c :=
    fun hc => (ih _ (mem_children_of_roles hc)).block (h.role hc)
  have hguard : ∀ {c}, (.guard, c) ∈ n.roles → ReadsBlock c.lexemes c :=
    fun hc => (ih _ (mem_children_of_roles hc)).block (h.role hc)
  cases n with
  | identifier name =>
    have hread := readsOperand_word h.plain
    rwa [atom_identifier (h.name List.mem_cons_self)] at hread
  | int v =>
    obtain ⟨k, rfl⟩ := Int.eq_ofNat_of_zero_le h.plain
    have hread := readsOperand_word (toString_not_keyword k)
    rwa [atom_int] at hread
  | float => exact h.plain.elim
  | nop => exact h.plain.elim
  | string s => exact readsOperand_string s
  | unary op x => exact readsUnary_unary op ((hexpr (by simp [roles])).wrapped id)
  | binary op l r =>
    exact readsOperation_binary op (hexpr (by simp [roles])).asOperand (hexpr (by simp [roles])).asOperand
  | ternary c t o =>
    exact readsExpr_ternary (hexpr (by simp [roles])).inTernary (hexpr (by simp [roles])).inTernary
      (hexpr (by simp [roles])).inTernary
  | assign t v =>
    have ht : (.target, t) ∈ (assign t v).roles := by simp [roles]
    obtain ⟨hstmt, hwrap⟩ := of_isAssignable (h.role ht)
    exact readsExpr_assign ((isRead_of_role h ih ht hstmt).operation hwrap) (hexpr (by simp [roles])).expr
  | property o k =>
    have ho := (hexpr (c := o) (by simp [roles])).wrapped wrapsUnderUnary_of_wrapsAsObject
    have hk := hexpr (c := k) (by simp [roles])
    cases k with
    | identifier name => exact readsOperand_dot ho name
    | _ => exact readsOperand_index ho hk.expr
  | call c as =>
    have hc := (hexpr (c := c) (by simp [roles])).wrapped wrapsUnderUnary_of_wrapsAsCallee
    exact readsOperand_call hc (readsArgs fun a ha => (hexpr (by simp [roles, ha])).readsBack)
  | new c as =>
    have hc : c.isDotted = true := h.plain
    have hlexemes : wrapped c.wrapsAsClass c.lexemes = c.lexemes := by
      rw [wrapsAsClass_of_isDotted hc]
      rfl
    have has : ReadsArgs (separated (allLexemes as)) as :=
      readsArgs fun a ha => (hexpr (by simp [roles, ha])).readsBack
    have hread := readsOperand_new (readPath_lexemes hc) has
    rwa [← hlexemes] at hread
  | function ps b =>
    refine readsOperand_function (readsArgs fun p hp => ?_) (hbody (by simp [roles]))
    have hmem : (.parameter, p) ∈ (function ps b).roles := by simp [roles, hp]
    exact (isRead_of_role h ih hmem (isStatement_of_isIdentifier (h.role hmem))).readsBack
  | object fs =>
    refine readsOperand_object (readFields_fields fun f hf => (hexpr ?_).expr)
    exact List.mem_map.2 ⟨f, hf, rfl⟩
  | block ss =>
    refine readsBlock fun s hs => ?_
    have hstmt : s.isStatement = true := h.role (r := .entry) (by simp [roles, hs])
    exact ⟨startsWith_stmt (h.child hs) hstmt, (ih s hs).stmt hstmt⟩
  | statement e =>
    have he := hexpr (c := e) (by simp [roles])
    exact readsStmt_expression (startsWith_wrapped he.readable he.expression) he.asStatement
  | declare name v =>
    exact readsStmt_declare name fun n hn => (hexpr (by simp [roles, Option.mem_def.1 hn])).readsBack
  | ret v => exact readsStmt_ret fun n hn => (hexpr (by simp [roles, Option.mem_def.1 hn])).readsBack
  | throwValue v => exact readsStmt_throwValue (hexpr (by simp [roles])).expr
  | breakLoop => exact readsStmt_breakLoop
  | continueLoop => exact readsStmt_continueLoop
  | whileLoop c b => exact readsStmt_whileLoop (hexpr (by simp [roles])).expr (hbody (by simp [roles]))
  | branch c b o =>
    refine readsStmt_branch (hexpr (by simp [roles])).expr (hbody (by simp [roles])) fun e he => ?_
    have hmem : (.otherwise, e) ∈ (branch c b o).roles := by simp [roles, Option.mem_def.1 he]
    refine (ih e (mem_children_of_roles hmem)).stmt (isStatement_of_isBlock ?_)
    exact Bool.or_eq_true_iff.1 (h.role hmem)
  | forLoop i c s b =>
    refine readsStmt_forLoop ?_ ?_ ?_ (hbody (by simp [roles]))
    · exact fun e he => (hexpr (by simp [roles, Option.mem_def.1 he])).readsBack
    · exact fun e he => (hexpr (by simp [roles, Option.mem_def.1 he])).readsBack
    · exact fun e he => (hexpr (by simp [roles, Option.mem_def.1 he])).readsBack
  | tryCatch b hd f =>
    refine readsStmt_tryCatch (hbody (by simp [roles])) (fun x hx => hguard ?_) fun e he => hguard ?_
    · simp [roles, Option.mem_def.1 hx]
    · simp [roles, Option.mem_def.1 he]

end Children

/-- The lexemes of a plain node are read as that node. -/
theorem reads {n : Node} (h : n.Readable) : n.Reads := by
  induction n using induction_children with
  | step n ih => exact reads_of_children h fun c hc => ih c hc (h.child hc)

/-- The text of a plain node is cut into its lexemes. -/
theorem lex_print {n : Node} (h : n.Readable) {text : String} (hp : n.print = .ok text) :
    lex text.toList = n.lexemes := by
  have hunit : ∀ c ∈ indentUnit.toList, c = ' ' := by simp [indentUnit]
  simpa [lex, lexFrom, State.flush] using spelled hunit h text hp [] parted_nil

/-- Plain expressions, or plain statements, with the same lexemes are the same. -/
theorem eq_of_lexemes {a b : Node} (ha : a.Readable) (hb : b.Readable)
    (hkind : a.isStatement = b.isStatement) (h : a.lexemes = b.lexemes) : a = b := by
  cases hstmt : b.isStatement with
  | true =>
    rw [hstmt] at hkind
    have hreada := (reads ha).stmt hkind [] trivial
    have hreadb := (reads hb).stmt hstmt [] trivial
    rw [h] at hreada
    exact congrArg Prod.fst (hreada.unique hreadb)
  | false =>
    rw [hstmt] at hkind
    have hreada := IsRead.expr ⟨ha, hkind, reads ha⟩ [] trivial
    have hreadb := IsRead.expr ⟨hb, hstmt, reads hb⟩ [] trivial
    rw [h] at hreada
    exact congrArg Prod.fst (hreada.unique hreadb)

end Node

/-! ## Texts -/

theorem Constructed.readable {n : Node} (h : Constructed n) (hplain : ∀ m ∈ n.all, m.Plain) : n.Readable :=
  fun m hm => ⟨h.formed m hm, hplain m hm⟩

theorem Constructed.prints {n : Node} (h : Constructed n) : ∃ text, n.print = .ok text :=
  n.prints_iff.2 fun m hm => (h.formed m hm).hasBlocks

/-- Two plain nodes that constructors make, both statements or both expressions, have different texts
unless they are the same. -/
theorem print_injective {a b : Node} (ha : Constructed a) (hb : Constructed b)
    (hplaina : ∀ m ∈ a.all, m.Plain) (hplainb : ∀ m ∈ b.all, m.Plain)
    (hkind : a.isStatement = b.isStatement) (h : a.print = b.print) : a = b := by
  have hreada := ha.readable hplaina
  have hreadb := hb.readable hplainb
  obtain ⟨text, htext⟩ := ha.prints
  refine Node.eq_of_lexemes hreada hreadb hkind ?_
  rw [← Node.lex_print hreada htext, ← Node.lex_print hreadb (h ▸ htext)]

example : (Node.int (-1)).print = (Node.unary .neg (.int 1)).print := rfl

/-- `new App.Model("a").save(-1);` -/
def saveCall : Node :=
  .statement (.call (.property (.new (.property (.identifier "App") (.identifier "Model")) [.string "a"])
    (.identifier "save")) [.unary .neg (.int 1)])

/-- The same, made step by step. -/
def makeSaveCall : Built Node := do
  let model ← new (← path ["App", "Model"]) [.string "a"]
  statement (← methodCall model "save" [← unary "-" (.int 1)])

theorem constructed_makeSaveCall {n : Node} (h : makeSaveCall = .ok n) : Constructed n := by
  obtain ⟨cls, hcls, h⟩ := bind_eq_ok.1 h
  obtain ⟨model, hmodel, h⟩ := bind_eq_ok.1 h
  obtain ⟨arg, harg, h⟩ := bind_eq_ok.1 h
  obtain ⟨call, hcall, h⟩ := bind_eq_ok.1 h
  have hargs : ∀ a ∈ [arg], Constructed a := List.forall_mem_singleton.2 (.unary (.int 1) harg)
  have hcls : Constructed cls := Constructed.hereditary.path trivial hcls
  have hmodel : Constructed model := .new hcls (List.forall_mem_singleton.2 (.string "a")) hmodel
  exact .statement (Constructed.hereditary.methodCall hmodel hargs hcall) h

theorem plain_saveCall : ∀ m ∈ saveCall.all, m.Plain := by
  simp only [saveCall, Node.all_eq, Node.children, List.flatMap_cons, List.flatMap_nil, List.append_nil,
    List.cons_append, List.nil_append, List.forall_mem_cons]
  simp [Node.Plain, Node.isDotted, keywords]

theorem saveCall_determined : ∃ n, makeSaveCall = .ok n ∧ (∀ m ∈ n.all, m.Plain) ∧
    n.print = .ok "new App.Model(\"a\").save(-1);" ∧ n.print = saveCall.print ∧ n = saveCall :=
  ⟨saveCall, rfl, plain_saveCall, rfl, rfl, print_injective (constructed_makeSaveCall rfl)
    (constructed_makeSaveCall rfl) plain_saveCall plain_saveCall rfl rfl⟩

end ClassScript.Script
