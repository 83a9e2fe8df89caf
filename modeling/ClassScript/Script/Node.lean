import ClassScript.Script.Operator
/-!
# The emitted tree

Nodes of the JavaScript program that a compilation emits. The type allows more than the language
does; the constructors of `Build` make only nodes that are well formed.
-/

namespace ClassScript.Script

mutual

inductive Node where
  | identifier (name : String)
  | int (value : Int)
  | float (value : Float)
  | string (value : String)
  | assign (target value : Node)
  /-- A declaration, with its initial value if it has one. -/
  | declare (name : String) (value : Option Node)
  | binary (op : BinaryOperator) (left right : Node)
  | unary (op : UnaryOperator) (operand : Node)
  | ternary (test whenTrue otherwise : Node)
  | property (object key : Node)
  | call (callee : Node) (args : List Node)
  | new (cls : Node) (args : List Node)
  | function (params : List Node) (body : Node)
  | block (stmts : List Node)
  | statement (expr : Node)
  | object (fields : List Field)
  | ret (value : Option Node)
  | branch (test body : Node) (otherwise : Option Node)
  | whileLoop (test body : Node)
  | forLoop (init test step : Option Node) (body : Node)
  | tryCatch (body : Node) (handler : Option Handler) (cleanup : Option Node)
  | throwValue (value : Node)
  | breakLoop
  | continueLoop
  | nop

structure Field where
  key : String
  value : Node

structure Handler where
  binding : String
  body : Node

end

namespace Node

instance : Inhabited Node := ⟨.nop⟩

/-- How the kind of a node is named in a message. -/
def tag : Node → String
  | identifier .. => "Identifier"
  | int .. => "IntLiteral"
  | float .. => "FloatLiteral"
  | string .. => "StringLiteral"
  | assign .. => "Assign"
  | declare .. => "AssignVar"
  | binary .. => "BinaryOp"
  | unary .. => "UnaryOp"
  | ternary .. => "TernaryOp"
  | property .. => "PropertyOf"
  | call .. => "Call"
  | new .. => "New"
  | function .. => "Function"
  | block .. => "Block"
  | statement .. => "Statement"
  | object .. => "Object"
  | ret .. => "Return"
  | branch .. => "If"
  | whileLoop .. => "While"
  | forLoop .. => "For"
  | tryCatch .. => "Try"
  | throwValue .. => "Throw"
  | breakLoop => "Break"
  | continueLoop => "Continue"
  | nop => "Nop"

def isIdentifier : Node → Bool
  | identifier _ => true
  | _ => false

/-- Whether the node stands only where a statement can. -/
def isStatement : Node → Bool
  | block _ | statement _ | declare .. | ret _ | branch .. | whileLoop .. | forLoop .. | tryCatch ..
  | throwValue _ | breakLoop | continueLoop | nop => true
  | _ => false

def isBlock : Node → Bool
  | block _ => true
  | _ => false

def isBranch : Node → Bool
  | branch .. => true
  | _ => false

/-- Whether the node can stand before an assignment sign. -/
def isAssignable : Node → Bool
  | identifier _ | property .. => true
  | _ => false

/-- The nodes directly below, in source order. -/
def children : Node → List Node
  | identifier _ | int _ | float _ | string _ | breakLoop | continueLoop | nop => []
  | assign t v => [t, v]
  | declare _ v => v.toList
  | binary _ l r => [l, r]
  | unary _ x => [x]
  | ternary c t o => [c, t, o]
  | property o k => [o, k]
  | call c as => c :: as
  | new c as => c :: as
  | function ps b => ps ++ [b]
  | block ss => ss
  | statement e => [e]
  | object fs => fs.map (·.value)
  | ret v => v.toList
  | branch c t o => c :: t :: o.toList
  | whileLoop c b => [c, b]
  | forLoop i c s b => i.toList ++ c.toList ++ s.toList ++ [b]
  | tryCatch b h f => b :: ((h.map (·.body)).toList ++ f.toList)
  | throwValue v => [v]

theorem sizeOf_lt_of_mem_children {n c : Node} (h : c ∈ n.children) : sizeOf c < sizeOf n := by
  cases n <;> simp only [children, List.mem_cons, List.mem_append, List.mem_map, Option.mem_toList,
    List.not_mem_nil, or_false, Option.map_eq_some_iff] at h
  case call c' as =>
    rcases h with rfl | h
    · simp; omega
    · have := List.sizeOf_lt_of_mem h; simp; omega
  case new c' as =>
    rcases h with rfl | h
    · simp; omega
    · have := List.sizeOf_lt_of_mem h; simp; omega
  case function ps b =>
    rcases h with h | rfl
    · have := List.sizeOf_lt_of_mem h; simp; omega
    · simp only [Node.function.sizeOf_spec]; omega
  case block ss => have := List.sizeOf_lt_of_mem h; simp; omega
  case object fs =>
    obtain ⟨f, hf, rfl⟩ := h
    have := List.sizeOf_lt_of_mem hf
    cases f
    simp at this ⊢; omega
  case tryCatch b hd f =>
    rcases h with rfl | ⟨hd', rfl, rfl⟩ | rfl
    · simp; omega
    · cases hd'; simp; omega
    · simp; omega
  all_goals grind [Node.assign.sizeOf_spec, Node.declare.sizeOf_spec, Node.binary.sizeOf_spec,
    Node.unary.sizeOf_spec, Node.ternary.sizeOf_spec, Node.property.sizeOf_spec,
    Node.statement.sizeOf_spec, Node.ret.sizeOf_spec, Node.branch.sizeOf_spec,
    Node.whileLoop.sizeOf_spec, Node.forLoop.sizeOf_spec, Node.throwValue.sizeOf_spec,
    Option.some.sizeOf_spec]

/-- The node and all nodes below it, each before its children. -/
def all (n : Node) : List Node := n :: n.children.attach.flatMap fun ⟨c, _⟩ => c.all
termination_by sizeOf n
decreasing_by exact sizeOf_lt_of_mem_children (by assumption)

/-- The number of nodes. -/
def count (n : Node) : Nat := n.all.length

end Node

end ClassScript.Script
