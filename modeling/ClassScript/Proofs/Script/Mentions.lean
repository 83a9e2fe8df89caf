import ClassScript.Proofs.Script.Constructed
/-!
# Variables of the emitted program

`Node.Mentions` says which variables a node binds or refers to; a name behind a dot is none of them. A node
that constructors make mentions the variables that they are given, and those that the nodes it is made of
mention (`covered_hereditary`).
-/

namespace ClassScript.Script

namespace Node

/-- The nodes directly below, without a name behind a dot. -/
def undotted : Node → List Node
  | property o (identifier _) => [o]
  | n => n.children

theorem mem_children_of_mem_undotted {n c : Node} (h : c ∈ n.undotted) : c ∈ n.children := by
  unfold undotted at h
  split at h
  · exact List.mem_cons.2 (.inl (List.mem_singleton.1 h))
  · exact h

/-- The variable is bound or referred to in the node, outside of what is set apart. -/
inductive Mentions (apart : Node → Prop) : Node → String → Prop
  | here {n : Node} {s : String} : ¬apart n → s ∈ n.names → Mentions apart n s
  | inside {n c : Node} {s : String} : ¬apart n → c ∈ n.undotted → Mentions apart c s → Mentions apart n s

/-- All variables that the node mentions are admitted. -/
def Covered (apart : Node → Prop) (admits : String → Prop) (n : Node) : Prop :=
  ∀ s, n.Mentions apart s → admits s

namespace Covered

variable {apart : Node → Prop} {admits : String → Prop} {n : Node}

theorem of_apart (h : apart n) : n.Covered apart admits := by
  intro s hs
  cases hs with
  | here hn _ | inside hn _ _ => exact absurd h hn

theorem of_undotted (hnames : ∀ s ∈ n.names, admits s) (h : ∀ c ∈ n.undotted, c.Covered apart admits) :
    n.Covered apart admits := by
  intro s hs
  cases hs with
  | here _ hmem => exact hnames s hmem
  | inside _ hc hs => exact h _ hc s hs

theorem of_children (hnames : ∀ s ∈ n.names, admits s) (h : ∀ c ∈ n.children, c.Covered apart admits) :
    n.Covered apart admits :=
  .of_undotted hnames fun c hc => h c (mem_children_of_mem_undotted hc)

/-- A node that spells no name itself. -/
theorem of_nameless (hnames : n.names = []) (h : ∀ c ∈ n.children, c.Covered apart admits) :
    n.Covered apart admits := .of_children (by simp [hnames]) h

theorem leaf (hnames : n.names = []) (h : n.children = []) : n.Covered apart admits :=
  .of_nameless hnames (by simp [h])

theorem block {ss : List Node} (h : ∀ s ∈ ss, s.Covered apart admits) :
    (Node.block ss).Covered apart admits := .of_nameless rfl h

end Covered

end Node

open Node in
/-- Constructors hand on that all variables are admitted. -/
theorem covered_hereditary (apart : Node → Prop) (admits : String → Prop) :
    Hereditary admits (Covered apart admits) where
  ident hname h := by
    obtain ⟨-, rfl⟩ := ident_eq_ok.1 h
    exact .of_children (List.forall_mem_singleton.2 hname) (List.forall_mem_nil _)
  int _ := .leaf rfl rfl
  float _ := .leaf rfl rfl
  string _ := .leaf rfl rfl
  assign ht hv h := by
    obtain ⟨-, -, rfl⟩ := assign_eq_ok.1 h
    exact .of_nameless rfl (by simp [children, *])
  declare hname hv h := by
    obtain ⟨-, -, rfl⟩ := declare_eq_ok.1 h
    exact .of_children (List.forall_mem_singleton.2 hname) (by simpa [children] using hv)
  binary hl hr h := by
    obtain ⟨_, -, -, -, rfl⟩ := binary_eq_ok.1 h
    exact .of_nameless rfl (by simp [children, *])
  unary hx h := by
    obtain ⟨_, -, -, rfl⟩ := unary_eq_ok.1 h
    exact .of_nameless rfl (by simpa [children] using hx)
  ternary hc ht ho h := by
    obtain ⟨-, -, -, rfl⟩ := ternary_eq_ok.1 h
    exact .of_nameless rfl (by simp [children, *])
  named ho hkey h := by
    obtain ⟨-, rfl⟩ := ident_eq_ok.1 hkey
    obtain ⟨-, -, -, rfl⟩ := propertyOf_eq_ok.1 h
    -- the name behind the dot is no variable
    exact .of_undotted (List.forall_mem_nil _) (List.forall_mem_singleton.2 ho)
  computed ho hkey h := by
    obtain ⟨-, -, -, rfl⟩ := propertyOf_eq_ok.1 h
    exact .of_nameless rfl (by simp [children, *])
  call hc has h := by
    obtain ⟨-, -, rfl⟩ := call_eq_ok.1 h
    exact .of_nameless rfl (List.forall_mem_cons.2 ⟨hc, has⟩)
  new hc has h := by
    obtain ⟨-, -, rfl⟩ := new_eq_ok.1 h
    exact .of_nameless rfl (List.forall_mem_cons.2 ⟨hc, has⟩)
  function hps hss h := by
    obtain ⟨-, -, rfl⟩ := function_eq_ok.1 h
    exact .of_nameless rfl (List.forall_mem_append.2 ⟨hps, List.forall_mem_singleton.2 (.block hss)⟩)
  object hfs h := by
    obtain ⟨-, rfl⟩ := object_eq_ok h
    exact .of_nameless rfl (List.forall_mem_map.2 hfs)
  block hss h := by
    obtain ⟨-, rfl⟩ := block_eq_ok.1 h
    exact .block hss
  statement he h := by
    obtain ⟨-, rfl⟩ := statement_eq_ok.1 h
    exact .of_nameless rfl (List.forall_mem_singleton.2 he)
  ret hv h := by
    obtain ⟨-, rfl⟩ := ret_eq_ok.1 h
    exact .of_nameless rfl (by simpa [children] using hv)
  branch hc hss ho h := by
    obtain ⟨-, -, -, rfl⟩ := branch_eq_ok.1 h
    have hbody := Covered.block hss
    exact .of_nameless rfl (by simpa [children, hc, hbody] using ho)
  whileLoop hc hss h := by
    obtain ⟨-, -, rfl⟩ := whileLoop_eq_ok.1 h
    have hbody := Covered.block hss
    exact .of_nameless rfl (by simp [children, hc, hbody])
  forLoop hi hc hs hss h := by
    obtain ⟨-, -, rfl⟩ := forLoop_eq_ok.1 h
    refine .of_nameless rfl ?_
    simp only [children, List.forall_mem_append, Option.mem_toList, List.forall_mem_singleton]
    exact ⟨⟨⟨hi, hc⟩, hs⟩, .block hss⟩
  tryCatch hss hhandler hcleanup h := by
    obtain ⟨-, -, -, rfl⟩ := tryCatch_eq_ok h
    refine .of_children ?_ (List.forall_mem_cons.2 ⟨.block hss, List.forall_mem_append.2 ⟨?_, ?_⟩⟩)
    · simpa [names] using fun x hx => (hhandler x hx).1
    · simp only [Option.map_map, Option.mem_toList, Option.map_eq_some_iff]
      rintro _ ⟨x, hx, rfl⟩
      exact .block (hhandler x hx).2
    · simp only [Option.mem_toList, Option.map_eq_some_iff]
      rintro _ ⟨ss, hss, rfl⟩
      exact .block (hcleanup ss hss)
  throwValue hv h := by
    obtain ⟨-, rfl⟩ := throwValue_eq_ok.1 h
    exact .of_nameless rfl (List.forall_mem_singleton.2 hv)
  breakLoop := .leaf rfl rfl
  continueLoop := .leaf rfl rfl
  nop := .leaf rfl rfl

end ClassScript.Script
