import ClassScript.Proofs.Tree.Through
import ClassScript.Script.Print
/-!
# Which nodes can be printed

Printing fails for the shape of a node only: a body that is no block, or an `else` that leads to
neither a block nor another branch. A node is printed if and only if this occurs nowhere in it
(`Node.prints_iff`).
-/

namespace ClassScript.Script

/-! ## Shape -/

namespace Node

/-- The parts that follow a header. -/
def bodies : Node → List Node
  | function _ b | branch _ b _ | whileLoop _ b | forLoop _ _ _ b | tryCatch b _ _ => [b]
  | _ => []

/-- What follows an `else`. -/
def otherwise? : Node → Option Node
  | branch _ _ o => o
  | _ => none

/-- Bodies are blocks, and an `else` leads to a block or to another branch. -/
def HasBlocks (n : Node) : Prop :=
  (∀ b ∈ n.bodies, b.isBlock = true) ∧ ∀ e ∈ n.otherwise?, e.isBlock = true ∨ e.isBranch = true

theorem all_eq (n : Node) : n.all = n :: n.children.flatMap all := by
  rw [all]
  simp

/-- What holds of all nodes of a tree, holds of the root and of all nodes below its children. -/
theorem forall_mem_all {P : Node → Prop} {n : Node} :
    (∀ m ∈ n.all, P m) ↔ P n ∧ ∀ c ∈ n.children, ∀ m ∈ c.all, P m := by
  rw [all_eq, List.forall_mem_cons]
  refine and_congr_right fun _ => ⟨fun h c hc m hm => h m (List.mem_flatMap.2 ⟨c, hc, hm⟩), ?_⟩
  intro h m hm
  obtain ⟨c, hc, hm⟩ := List.mem_flatMap.1 hm
  exact h c hc m hm

/-- Induction along the tree. -/
theorem induction_children {motive : Node → Prop}
    (step : ∀ n, (∀ c ∈ n.children, motive c) → motive n) (n : Node) : motive n :=
  step n fun c _ => induction_children step c
termination_by sizeOf n
decreasing_by exact sizeOf_lt_of_mem_children (by assumption)

end Node

/-! ## Success -/

/-- The action gives a result. -/
def Succeeds {α : Type} (b : Built α) : Prop := ∃ a, b = .ok a

namespace Succeeds

variable {α β : Type}

theorem pure (a : α) : Succeeds (Pure.pure a : Built α) ↔ True := ⟨fun _ => trivial, fun _ => ⟨a, rfl⟩⟩

/-- Both of two actions have to succeed, if the second does so whatever it is given. -/
theorem bind {b : Built α} {f : α → Built β} {Q : Prop} (hf : ∀ a, Succeeds (f a) ↔ Q) :
    Succeeds (b >>= f) ↔ Succeeds b ∧ Q := by
  cases b with
  | error e => exact ⟨nofun, nofun⟩
  | ok a => exact (hf a).trans ⟨fun h => ⟨⟨a, rfl⟩, h⟩, And.right⟩

theorem last {b : Built α} {f : α → β} : Succeeds (do return f (← b)) ↔ Succeeds b :=
  (bind fun a => pure (f a)).trans (and_true _ ▸ Iff.rfl)

theorem needBlock {owner : String} {body : Node} :
    Succeeds (needBlock owner body) ↔ body.isBlock = true := by
  unfold Script.needBlock
  cases body.isBlock <;> simp [Succeeds]

theorem needElse {otherwise : Option Node} :
    Succeeds (needElse otherwise) ↔ ∀ e ∈ otherwise, e.isBlock = true ∨ e.isBranch = true := by
  cases otherwise with
  | none => exact iff_of_true ⟨(), rfl⟩ nofun
  | some e =>
    simp only [Option.mem_some_iff, forall_eq', ← Bool.or_eq_true]
    show Succeeds (if e.isBlock || e.isBranch then _ else _) ↔ _
    cases e.isBlock || e.isBranch <;> simp [Succeeds]

end Succeeds

variable {unit : String}

theorem succeeds_printAll {ns : List Node} :
    Succeeds (printAll unit ns) ↔ ∀ n ∈ ns, Succeeds (n.printWith unit) := by
  induction ns with
  | nil => exact iff_of_true ⟨[], rfl⟩ nofun
  | cons n ns ih =>
    rw [List.forall_mem_cons, ← ih]
    exact Succeeds.bind fun _ => Succeeds.last

theorem succeeds_printOption {value : Option Node} :
    Succeeds (printOption unit value) ↔ ∀ n ∈ value, Succeeds (n.printWith unit) := by
  cases value with
  | none => exact iff_of_true ⟨none, rfl⟩ nofun
  | some n =>
    simp only [Option.mem_some_iff, forall_eq']
    exact Succeeds.last

theorem succeeds_printFields {fs : List Field} :
    Succeeds (printFields unit fs) ↔ ∀ f ∈ fs, Succeeds (f.value.printWith unit) := by
  induction fs with
  | nil => exact iff_of_true ⟨[], rfl⟩ nofun
  | cons f fs ih =>
    cases f
    rw [List.forall_mem_cons, ← ih]
    exact Succeeds.bind fun _ => Succeeds.last

theorem succeeds_printHandler {handler : Option Handler} :
    Succeeds (printHandler unit handler) ↔ ∀ h ∈ handler, Succeeds (h.body.printWith unit) := by
  cases handler with
  | none => exact iff_of_true ⟨"", rfl⟩ nofun
  | some h =>
    cases h
    simp only [Option.mem_some_iff, forall_eq']
    exact Succeeds.last

/-! ## Printing -/

/-- A node is printed if its children are and its own shape is right. -/
theorem succeeds_printWith (n : Node) : Succeeds (n.printWith unit) ↔
    n.HasBlocks ∧ ∀ c ∈ n.children, Succeeds (c.printWith unit) := by
  cases n with
  | identifier _ | int _ | float _ | string _ | breakLoop | continueLoop | nop =>
    exact iff_of_true ⟨_, rfl⟩ ⟨⟨nofun, nofun⟩, nofun⟩
  | assign l r | binary op l r | property l r =>
    refine (Succeeds.bind fun _ => Succeeds.last).trans ?_
    simp [Node.HasBlocks, Node.bodies, Node.otherwise?, Node.children]
  | ternary c t o =>
    refine (Succeeds.bind fun _ => Succeeds.bind fun _ => Succeeds.last).trans ?_
    simp [Node.HasBlocks, Node.bodies, Node.otherwise?, Node.children]
  | unary op x | statement x | throwValue x =>
    refine Succeeds.last.trans ?_
    simp [Node.HasBlocks, Node.bodies, Node.otherwise?, Node.children]
  | declare name value | ret value =>
    refine (Succeeds.bind (Q := True) fun text => by cases text <;> exact Succeeds.pure _).trans ?_
    simp [succeeds_printOption, Node.HasBlocks, Node.bodies, Node.otherwise?, Node.children]
  | call c as | new c as =>
    refine (Succeeds.bind fun _ => Succeeds.last.trans succeeds_printAll).trans ?_
    simp [Node.HasBlocks, Node.bodies, Node.otherwise?, Node.children]
  | block ss =>
    refine (Succeeds.last.trans succeeds_printAll).trans ?_
    simp [Node.HasBlocks, Node.bodies, Node.otherwise?, Node.children]
  | object fs =>
    refine (Succeeds.last.trans succeeds_printFields).trans ?_
    simp [Node.HasBlocks, Node.bodies, Node.otherwise?, Node.children]
  | function ps b =>
    refine (Succeeds.bind fun _ => Succeeds.bind fun _ => Succeeds.last).trans ?_
    simp only [succeeds_printAll, Succeeds.needBlock, Node.HasBlocks, Node.bodies, Node.otherwise?,
      Node.children, List.forall_mem_append, List.forall_mem_singleton]
    tauto
  | branch c t o =>
    refine (Succeeds.bind fun _ => Succeeds.bind fun _ => Succeeds.bind fun _ => Succeeds.bind fun _ =>
      Succeeds.last).trans ?_
    simp only [succeeds_printOption, Succeeds.needBlock, Succeeds.needElse, Node.HasBlocks, Node.bodies,
      Node.otherwise?, Node.children, List.forall_mem_cons, Option.mem_toList]
    tauto
  | whileLoop c b =>
    refine (Succeeds.bind fun _ => Succeeds.bind fun _ => Succeeds.last).trans ?_
    simp only [Succeeds.needBlock, Node.HasBlocks, Node.bodies, Node.otherwise?,
      Node.children, List.forall_mem_cons]
    tauto
  | forLoop i c s b =>
    refine (Succeeds.bind fun _ => Succeeds.bind fun _ => Succeeds.bind fun _ => Succeeds.bind fun _ =>
      Succeeds.last).trans ?_
    simp only [succeeds_printOption, Succeeds.needBlock, Node.HasBlocks, Node.bodies,
      Node.otherwise?, Node.children, List.forall_mem_append, List.forall_mem_singleton, Option.mem_toList]
    tauto
  | tryCatch b h f =>
    refine (Succeeds.bind fun _ => Succeeds.bind fun _ => Succeeds.bind fun _ => Succeeds.last).trans ?_
    simp only [succeeds_printOption, succeeds_printHandler, Succeeds.needBlock, Node.HasBlocks, Node.bodies,
      Node.otherwise?, Node.children, List.forall_mem_cons, List.forall_mem_append, Option.mem_toList,
      Option.map_eq_some_iff, forall_exists_index, and_imp, forall_apply_eq_imp_iff₂]
    tauto

/-- A node is printed if and only if all nodes of its tree have the right shape. -/
theorem Node.prints_iff (n : Node) :
    Succeeds (n.printWith unit) ↔ ∀ m ∈ n.all, m.HasBlocks := by
  induction n using induction_children with
  | step n ih =>
    rw [succeeds_printWith, forall_mem_all]
    exact and_congr_right fun _ => forall₂_congr ih

end ClassScript.Script
