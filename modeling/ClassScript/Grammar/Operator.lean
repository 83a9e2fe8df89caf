import ClassScript.Grammar.Basic
/-!
# Operators and how tightly they bind
-/

namespace ClassScript.Grammar

/-! ## Binding powers -/

namespace Binding

def orWord : Nat := 1
def xorWord : Nat := 2
def andWord : Nat := 3
def assign : Nat := 4
def ternary : Nat := 5
def or : Nat := 7
def and : Nat := 8
def bitOr : Nat := 9
def bitXor : Nat := 10
def bitAnd : Nat := 11
def equality : Nat := 12
def comparison : Nat := 13
def concat : Nat := 14
def shift : Nat := 15
def additive : Nat := 16
def multiplicative : Nat := 17
def not : Nat := 18
def instanceOf : Nat := 19
def unary : Nat := 20

end Binding

/-! ## Spellings -/

/-- A binary operator between operands, with its binding power. The power operator is not one of
them: it belongs to the operand before it. -/
def binaryOp? (k : TokenKind) : Option (BinaryOp × Nat) :=
  match k with
  | .punct "||" => some (.or, Binding.or)
  | .punct "&&" => some (.and, Binding.and)
  | .punct "|" => some (.bitOr, Binding.bitOr)
  | .punct "^" => some (.bitXor, Binding.bitXor)
  | .punct "&" => some (.bitAnd, Binding.bitAnd)
  | .punct "==" => some (.equal, Binding.equality)
  | .punct "!=" => some (.notEqual, Binding.equality)
  | .punct "<>" => some (.notEqual, Binding.equality)
  | .punct "===" => some (.identical, Binding.equality)
  | .punct "!==" => some (.notIdentical, Binding.equality)
  | .punct "<" => some (.less, Binding.comparison)
  | .punct "<=" => some (.lessEqual, Binding.comparison)
  | .punct ">" => some (.greater, Binding.comparison)
  | .punct ">=" => some (.greaterEqual, Binding.comparison)
  | .punct "." => some (.concat, Binding.concat)
  | .punct "<<" => some (.shiftLeft, Binding.shift)
  | .punct ">>" => some (.shiftRight, Binding.shift)
  | .punct "+" => some (.add, Binding.additive)
  | .punct "-" => some (.sub, Binding.additive)
  | .punct "*" => some (.mul, Binding.multiplicative)
  | .punct "/" => some (.div, Binding.multiplicative)
  | .punct "%" => some (.mod, Binding.multiplicative)
  | .name w => match lower w with
    | "or" => some (.or, Binding.orWord)
    | "xor" => some (.xor, Binding.xorWord)
    | "and" => some (.and, Binding.andWord)
    | _ => none
  | _ => none

/-- An operator before its operand, with its binding power. -/
def unaryOp? (k : TokenKind) : Option (UnaryOp × Nat) :=
  match k with
  | .punct "!" => some (.not, Binding.not)
  | .punct "-" => some (.neg, Binding.unary)
  | .punct "+" => some (.plus, Binding.unary)
  | .punct "~" => some (.bitNot, Binding.unary)
  | _ => none

/-- Plain assignment, or the operator that a compound assignment applies first. -/
inductive Assignment where
  | plain
  | compound (op : BinaryOp)

def assignment? (k : TokenKind) : Option Assignment :=
  match k with
  | .punct "=" => some .plain
  | .punct "+=" => some (.compound .add)
  | .punct "-=" => some (.compound .sub)
  | .punct "*=" => some (.compound .mul)
  | .punct "/=" => some (.compound .div)
  | .punct "%=" => some (.compound .mod)
  | .punct "**=" => some (.compound .pow)
  | .punct ".=" => some (.compound .concat)
  | .punct "&=" => some (.compound .bitAnd)
  | .punct "|=" => some (.compound .bitOr)
  | .punct "^=" => some (.compound .bitXor)
  | .punct "<<=" => some (.compound .shiftLeft)
  | .punct ">>=" => some (.compound .shiftRight)
  | _ => none

/-- Whether an expression can stand before an assignment operator. -/
def isAssignable : Expr → Bool
  | .variable .. | .dynamicVariable .. | .index .. | .property .. | .staticProperty .. => true
  | _ => false

def isArray : Expr → Bool
  | .array .. => true
  | _ => false

/-- The type that a word between parentheses casts to. -/
def castType? (w : String) : Option CastType :=
  match lower w with
  | "int" | "integer" => some .int
  | "float" | "double" => some .float
  | "string" => some .string
  | "bool" | "boolean" => some .bool
  | _ => none

/-- The class that a word refers to. -/
def classRef (raw : String) : ClassRef :=
  match lower raw with
  | "self" => .self
  | "parent" => .parent
  | "static" => .static
  | _ => .named (Name.parse raw)

/-- Words that start a construct that no rule accepts. -/
def refusedWords : List String :=
  ["switch", "do", "goto", "global", "match", "fn", "clone", "include", "include_once", "require",
    "require_once", "list", "print", "exit", "die", "yield", "unset", "eval", "trait", "enum",
    "declare"]

end ClassScript.Grammar
