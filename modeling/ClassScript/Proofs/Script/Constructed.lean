import ClassScript.Proofs.Script.Made
import ClassScript.Proofs.Script.Printable
/-!
# Nodes made by constructors

`Constructed` holds of the nodes that the constructors make of one another, in any number of steps. Such
nodes are well formed throughout (`Constructed.formed`). It is one of the properties that are handed on
by constructors (`Hereditary`); those that are made of others, such as `path` and `chain`, hand them on
as well.
-/

namespace ClassScript.Script

/-! ## Well-formed nodes -/

/-- What a node is to the one above it. -/
inductive Role where
  | expression
  | target
  | parameter
  | entry
  | body
  | otherwise
  /-- What handles a thrown value, or is done in any case. -/
  | guard
deriving DecidableEq

/-- Whether a node can play the role. -/
def Role.admits : Role → Node → Bool
  | expression, n => !n.isStatement
  | target, n => n.isAssignable
  | parameter, n => n.isIdentifier
  | entry, n => n.isStatement
  | body, n | guard, n => n.isBlock
  | otherwise, n => n.isBlock || n.isBranch

namespace Node

/-- The nodes directly below with their roles, in source order. -/
def roles : Node → List (Role × Node)
  | identifier _ | int _ | float _ | string _ | breakLoop | continueLoop | nop => []
  | assign t v => [(.target, t), (.expression, v)]
  | declare _ v | ret v => v.toList.map (.expression, ·)
  | binary _ l r => [(.expression, l), (.expression, r)]
  | unary _ x | statement x | throwValue x => [(.expression, x)]
  | ternary c t o => [(.expression, c), (.expression, t), (.expression, o)]
  | property o k => [(.expression, o), (.expression, k)]
  | call c as | new c as => (.expression, c) :: as.map (.expression, ·)
  | function ps b => ps.map (.parameter, ·) ++ [(.body, b)]
  | block ss => ss.map (.entry, ·)
  | object fs => fs.map (.expression, ·.value)
  | branch c b o => (.expression, c) :: (.body, b) :: o.toList.map (.otherwise, ·)
  | whileLoop c b => [(.expression, c), (.body, b)]
  | forLoop i c s b => (i.toList ++ c.toList ++ s.toList).map (.expression, ·) ++ [(.body, b)]
  | tryCatch b h f => (.body, b) :: ((h.map (·.body)).toList ++ f.toList).map (.guard, ·)

theorem children_eq_roles (n : Node) : n.children = n.roles.map Prod.snd := by
  cases n <;> simp [children, roles, Function.comp_def]

/-- The names that the node itself spells. -/
def names : Node → List String
  | identifier name | declare name _ => [name]
  | tryCatch _ h _ => (h.map (·.binding)).toList
  | _ => []

/-- The nodes directly below can play their roles, and all names are identifiers. -/
structure Formed (n : Node) : Prop where
  roles : ∀ x ∈ n.roles, x.1.admits x.2 = true
  names : ∀ s ∈ n.names, isIdentifierName s = true

theorem Formed.hasBlocks {n : Node} (h : n.Formed) : n.HasBlocks := by
  have h := h.roles
  constructor
  · intro b hb
    refine h (.body, b) ?_
    cases n <;> simp_all [bodies, Node.roles]
  · intro e he
    refine Bool.or_eq_true_iff.1 (h (.otherwise, e) ?_)
    cases n <;> simp_all [otherwise?, Node.roles]

/-- All nodes of the tree are well formed. -/
def Sound (n : Node) : Prop := ∀ m ∈ n.all, m.Formed

theorem sound_iff {n : Node} : n.Sound ↔ n.Formed ∧ ∀ c ∈ n.children, c.Sound := forall_mem_all

/-- A node whose parts play their roles and are well formed is so itself. -/
theorem Sound.of_roles {n : Node} (hnames : ∀ s ∈ n.names, isIdentifierName s = true)
    (h : ∀ x ∈ n.roles, x.1.admits x.2 = true ∧ x.2.Sound) : n.Sound := by
  refine sound_iff.2 ⟨⟨fun x hx => (h x hx).1, hnames⟩, fun c hc => ?_⟩
  rw [children_eq_roles] at hc
  obtain ⟨x, hx, rfl⟩ := List.mem_map.1 hc
  exact (h x hx).2

@[simp] theorem isBlock_block (ss : List Node) : (block ss).isBlock = true := rfl

theorem sound_block {ss : List Node} (h : ∀ s ∈ ss, s.isStatement = true) (hs : ∀ s ∈ ss, s.Sound) :
    (block ss).Sound :=
  .of_roles nofun (List.forall_mem_map.2 fun s hss => ⟨h s hss, hs s hss⟩)

theorem sound_foldl_property {o : Node} {ks : List Node} (ho : o.isStatement = false) (hos : o.Sound)
    (hk : ∀ k ∈ ks, k.isStatement = false) (hks : ∀ k ∈ ks, k.Sound) : (ks.foldl property o).Sound := by
  induction ks generalizing o with
  | nil => exact hos
  | cons k ks ih =>
    rw [List.forall_mem_cons] at hk hks
    exact ih rfl (.of_roles nofun (by simp [roles, Role.admits, *])) hk.2 hks.2

end Node

/-! ## Constructed nodes -/

inductive Constructed : Node → Prop
  | ident {name n} : ident name = .ok n → Constructed n
  | int (v) : Constructed (.int v)
  | float (v) : Constructed (.float v)
  | string (v) : Constructed (.string v)
  | assign {t v n} : Constructed t → Constructed v → assign t v = .ok n → Constructed n
  | declare {name value n} : (∀ v ∈ value, Constructed v) → declare name value = .ok n → Constructed n
  | binary {symbol l r n} : Constructed l → Constructed r → binary symbol l r = .ok n → Constructed n
  | unary {symbol x n} : Constructed x → unary symbol x = .ok n → Constructed n
  | ternary {c t o n} : Constructed c → Constructed t → Constructed o → ternary c t o = .ok n →
    Constructed n
  | propertyOf {o ks n} : Constructed o → (∀ k ∈ ks, Constructed k) → propertyOf o ks = .ok n →
    Constructed n
  | call {c as n} : Constructed c → (∀ a ∈ as, Constructed a) → call c as = .ok n → Constructed n
  | new {c as n} : Constructed c → (∀ a ∈ as, Constructed a) → new c as = .ok n → Constructed n
  | function {ps ss n} : (∀ p ∈ ps, Constructed p) → (∀ s ∈ ss, Constructed s) →
    function ps ss = .ok n → Constructed n
  | object {fs n} : (∀ f ∈ fs, Constructed f.value) → object fs = .ok n → Constructed n
  | block {ss n} : (∀ s ∈ ss, Constructed s) → block ss = .ok n → Constructed n
  | statement {e n} : Constructed e → statement e = .ok n → Constructed n
  | ret {value n} : (∀ v ∈ value, Constructed v) → ret value = .ok n → Constructed n
  | branch {c ss o n} : Constructed c → (∀ s ∈ ss, Constructed s) → (∀ e ∈ o, Constructed e) →
    branch c ss o = .ok n → Constructed n
  | whileLoop {c ss n} : Constructed c → (∀ s ∈ ss, Constructed s) → whileLoop c ss = .ok n →
    Constructed n
  | forLoop {i c s ss n} : (∀ e ∈ i, Constructed e) → (∀ e ∈ c, Constructed e) →
    (∀ e ∈ s, Constructed e) → (∀ s ∈ ss, Constructed s) → forLoop i c s ss = .ok n → Constructed n
  | tryCatch {ss handler cleanup n} : (∀ s ∈ ss, Constructed s) →
    (∀ x ∈ handler, ∀ s ∈ x.2, Constructed s) → (∀ x ∈ cleanup, ∀ s ∈ x, Constructed s) →
    tryCatch ss handler cleanup = .ok n → Constructed n
  | throwValue {v n} : Constructed v → throwValue v = .ok n → Constructed n
  | breakLoop : Constructed .breakLoop
  | continueLoop : Constructed .continueLoop
  | nop : Constructed .nop

/-! ## Hereditary properties -/

/-- A property that constructors hand on: a node has it if the nodes that it is made of have it and the
names that it spells are admitted. A name behind a dot is not asked about. -/
structure Hereditary (admits : String → Prop) (P : Node → Prop) : Prop where
  ident {name n} : admits name → ident name = .ok n → P n
  int (v) : P (.int v)
  float (v) : P (.float v)
  string (v) : P (.string v)
  assign {t v n} : P t → P v → assign t v = .ok n → P n
  declare {name value n} : admits name → (∀ v ∈ value, P v) → declare name value = .ok n → P n
  binary {symbol l r n} : P l → P r → binary symbol l r = .ok n → P n
  unary {symbol x n} : P x → unary symbol x = .ok n → P n
  ternary {c t o n} : P c → P t → P o → ternary c t o = .ok n → P n
  named {o name key n} : P o → Script.ident name = .ok key → propertyOf o [key] = .ok n → P n
  computed {o key n} : P o → P key → propertyOf o [key] = .ok n → P n
  call {c as n} : P c → (∀ a ∈ as, P a) → call c as = .ok n → P n
  new {c as n} : P c → (∀ a ∈ as, P a) → new c as = .ok n → P n
  function {ps ss n} : (∀ p ∈ ps, P p) → (∀ s ∈ ss, P s) → function ps ss = .ok n → P n
  object {fs n} : (∀ f ∈ fs, P f.value) → object fs = .ok n → P n
  block {ss n} : (∀ s ∈ ss, P s) → block ss = .ok n → P n
  statement {e n} : P e → statement e = .ok n → P n
  ret {value n} : (∀ v ∈ value, P v) → ret value = .ok n → P n
  branch {c ss o n} : P c → (∀ s ∈ ss, P s) → (∀ e ∈ o, P e) → branch c ss o = .ok n → P n
  whileLoop {c ss n} : P c → (∀ s ∈ ss, P s) → whileLoop c ss = .ok n → P n
  forLoop {i c s ss n} : (∀ e ∈ i, P e) → (∀ e ∈ c, P e) → (∀ e ∈ s, P e) → (∀ s ∈ ss, P s) →
    forLoop i c s ss = .ok n → P n
  tryCatch {ss handler cleanup n} : (∀ s ∈ ss, P s) → (∀ x ∈ handler, admits x.1 ∧ ∀ s ∈ x.2, P s) →
    (∀ x ∈ cleanup, ∀ s ∈ x, P s) → tryCatch ss handler cleanup = .ok n → P n
  throwValue {v n} : P v → throwValue v = .ok n → P n
  breakLoop : P .breakLoop
  continueLoop : P .continueLoop
  nop : P .nop

/-- What each step hands on is there at the end. -/
theorem foldlM_keeps {α : Type} {P : Node → Prop} {f : Node → α → Built Node} {l : List α} {n o : Node}
    (ho : P o) (hf : ∀ {m a m'}, a ∈ l → P m → f m a = .ok m' → P m') (h : l.foldlM f o = .ok n) : P n := by
  induction l generalizing o with
  | nil =>
    obtain rfl := ok_eq_ok.1 h
    exact ho
  | cons a l ih =>
    obtain ⟨m, hm, h⟩ := bind_eq_ok.1 h
    exact ih (hf List.mem_cons_self ho hm) (fun ha => hf (List.mem_cons_of_mem _ ha)) h

namespace Hereditary

variable {admits : String → Prop} {P : Node → Prop} (hP : Hereditary admits P) {n o : Node} {ns : List Node}
  {name symbol : String}

include hP

theorem identifier (hname : admits name) (h : isIdentifierName name = true) : P (.identifier name) :=
  hP.ident hname (ident_eq_ok.2 ⟨h, rfl⟩)

theorem negate {x : Node} (hx : P x) (h : negate x = .ok n) : P n := hP.unary hx h

theorem chain (hns : ∀ m ∈ ns, P m) (h : chain symbol ns = .ok n) : P n := by
  cases ns with
  | nil => cases h
  | cons m ns =>
    rw [List.forall_mem_cons] at hns
    exact foldlM_keeps hns.1 (fun ha hl => hP.binary hl (hns.2 _ ha)) h

theorem member (ho : P o) (h : member o name = .ok n) : P n := by
  unfold Script.member at h
  split at h
  · next hname => exact hP.named ho (ident_eq_ok.2 ⟨hname, rfl⟩) h
  · exact hP.computed ho (hP.string name) h

theorem path {rest : List String} (hname : admits name) (h : path (name :: rest) = .ok n) : P n := by
  obtain ⟨m, hm, h⟩ := bind_eq_ok.1 h
  exact foldlM_keeps (hP.ident hname hm) (fun _ => hP.member) h

theorem methodCall {as : List Node} (ho : P o) (has : ∀ a ∈ as, P a)
    (h : methodCall o name as = .ok n) : P n := by
  obtain ⟨callee, hcallee, h⟩ := bind_eq_ok.1 h
  exact hP.call (hP.member ho hcallee) has h

end Hereditary

namespace Constructed

variable {n : Node} {name : String}

theorem hereditary : Hereditary (fun _ => True) Constructed where
  ident _ := .ident
  int := .int
  float := .float
  string := .string
  assign := .assign
  declare _ := .declare
  binary := .binary
  unary := .unary
  ternary := .ternary
  named ho hkey := .propertyOf ho (List.forall_mem_singleton.2 (.ident hkey))
  computed ho hkey := .propertyOf ho (List.forall_mem_singleton.2 hkey)
  call := .call
  new := .new
  function := .function
  object := .object
  block := .block
  statement := .statement
  ret := .ret
  branch := .branch
  whileLoop := .whileLoop
  forLoop := .forLoop
  tryCatch hss hhandler := .tryCatch hss fun x hx => (hhandler x hx).2
  throwValue := .throwValue
  breakLoop := .breakLoop
  continueLoop := .continueLoop
  nop := .nop

/-! ## Well-formedness -/

/-- A node that constructors make is well formed throughout. -/
theorem formed (h : Constructed n) : n.Sound := by
  induction h with
  | ident h =>
    obtain ⟨hname, rfl⟩ := ident_eq_ok.1 h
    exact .of_roles (List.forall_mem_singleton.2 hname) nofun
  | int | float | string | breakLoop | continueLoop | nop => exact .of_roles nofun nofun
  | assign _ _ h iht ihv =>
    obtain ⟨ht, hv, rfl⟩ := assign_eq_ok.1 h
    exact .of_roles nofun (by simp [Node.roles, Role.admits, *])
  | declare _ h ih =>
    obtain ⟨hname, hv, rfl⟩ := declare_eq_ok.1 h
    refine .of_roles (List.forall_mem_singleton.2 hname) (List.forall_mem_map.2 fun v hmem => ?_)
    simp [Role.admits, hv v (Option.mem_toList.1 hmem), ih v (Option.mem_toList.1 hmem)]
  | binary _ _ h ihl ihr =>
    obtain ⟨op, -, hl, hr, rfl⟩ := binary_eq_ok.1 h
    exact .of_roles nofun (by simp [Node.roles, Role.admits, *])
  | unary _ h ih =>
    obtain ⟨op, -, hx, rfl⟩ := unary_eq_ok.1 h
    exact .of_roles nofun (by simp [Node.roles, Role.admits, *])
  | ternary _ _ _ h ihc iht iho =>
    obtain ⟨hc, ht, ho, rfl⟩ := ternary_eq_ok.1 h
    exact .of_roles nofun (by simp [Node.roles, Role.admits, *])
  | propertyOf _ _ h iho ihks =>
    obtain ⟨-, ho, hks, rfl⟩ := propertyOf_eq_ok.1 h
    exact Node.sound_foldl_property ho iho hks ihks
  | call _ _ h ihc ihas =>
    obtain ⟨hc, has, rfl⟩ := call_eq_ok.1 h
    exact .of_roles nofun (by simp +contextual [Node.roles, Role.admits, *])
  | new _ _ h ihc ihas =>
    obtain ⟨hc, has, rfl⟩ := new_eq_ok.1 h
    exact .of_roles nofun (by simp +contextual [Node.roles, Role.admits, *])
  | function _ _ h ihps ihss =>
    obtain ⟨hps, hss, rfl⟩ := function_eq_ok.1 h
    have hbody := Node.sound_block hss ihss
    exact .of_roles nofun (by simp +contextual [Node.roles, Role.admits, or_imp, forall_and, *])
  | object _ h ih =>
    obtain ⟨hfs, rfl⟩ := object_eq_ok h
    exact .of_roles nofun (by simp +contextual [Node.roles, Role.admits, *])
  | block _ h ih =>
    obtain ⟨hss, rfl⟩ := block_eq_ok.1 h
    exact Node.sound_block hss ih
  | statement _ h ih =>
    obtain ⟨he, rfl⟩ := statement_eq_ok.1 h
    exact .of_roles nofun (by simp [Node.roles, Role.admits, *])
  | ret _ h ih =>
    obtain ⟨hv, rfl⟩ := ret_eq_ok.1 h
    refine .of_roles nofun (List.forall_mem_map.2 fun v hmem => ?_)
    simp [Role.admits, hv v (Option.mem_toList.1 hmem), ih v (Option.mem_toList.1 hmem)]
  | branch _ _ _ h ihc ihss iho =>
    obtain ⟨hc, ho, hss, rfl⟩ := branch_eq_ok.1 h
    have hbody := Node.sound_block hss ihss
    exact .of_roles nofun (by simp +contextual [Node.roles, Role.admits, *])
  | whileLoop _ _ h ihc ihss =>
    obtain ⟨hc, hss, rfl⟩ := whileLoop_eq_ok.1 h
    have hbody := Node.sound_block hss ihss
    exact .of_roles nofun (by simp [Node.roles, Role.admits, *])
  | @forLoop i c s ss _ _ _ _ _ h ihi ihc ihs ihss =>
    obtain ⟨hheader, hss, rfl⟩ := forLoop_eq_ok.1 h
    have hbody := Node.sound_block hss ihss
    have hparts : ∀ e ∈ i.toList ++ c.toList ++ s.toList, e.Sound := by
      simp only [List.forall_mem_append, Option.mem_toList]
      exact ⟨⟨ihi, ihc⟩, ihs⟩
    refine .of_roles nofun (List.forall_mem_append.2 ⟨List.forall_mem_map.2 fun e he => ?_, ?_⟩)
    · exact ⟨by simp [Role.admits, hheader e he], hparts e he⟩
    · exact List.forall_mem_singleton.2 ⟨rfl, hbody⟩
  | tryCatch _ _ _ h ihss ihhandler ihcleanup =>
    obtain ⟨hhandler, hss, hcleanup, rfl⟩ := tryCatch_eq_ok h
    have hbody := Node.sound_block hss ihss
    refine .of_roles ?_ (List.forall_mem_cons.2 ⟨⟨rfl, hbody⟩, List.forall_mem_map.2 fun b hb => ?_⟩)
    · simpa [Node.names] using fun x hx => (hhandler x hx).1
    · simp only [List.mem_append, Option.mem_toList, Option.map_map, Option.map_eq_some_iff] at hb
      rcases hb with ⟨x, hx, rfl⟩ | ⟨x, hx, rfl⟩
      · exact ⟨rfl, Node.sound_block (hhandler x hx).2 (ihhandler x hx)⟩
      · exact ⟨rfl, Node.sound_block (hcleanup x hx) (ihcleanup x hx)⟩
  | throwValue _ h ih =>
    obtain ⟨hv, rfl⟩ := throwValue_eq_ok.1 h
    exact .of_roles nofun (by simp [Node.roles, Role.admits, *])

end Constructed

end ClassScript.Script
