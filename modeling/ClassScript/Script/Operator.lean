/-!
# Operators of the emitted language
-/

namespace ClassScript.Script

inductive BinaryOperator where
  | add
  | sub
  | mul
  | div
  | mod
  | and
  | or
  | bitAnd
  | bitOr
  | bitXor
  | shiftLeft
  | shiftRight
  | equal
  | notEqual
  | identical
  | notIdentical
  | less
  | lessEqual
  | greater
  | greaterEqual
  | instanceOf
  | isIn
  | comma
deriving DecidableEq, Repr, Inhabited

namespace BinaryOperator

def symbol : BinaryOperator → String
  | add => "+"
  | sub => "-"
  | mul => "*"
  | div => "/"
  | mod => "%"
  | and => "&&"
  | or => "||"
  | bitAnd => "&"
  | bitOr => "|"
  | bitXor => "^"
  | shiftLeft => "<<"
  | shiftRight => ">>"
  | equal => "=="
  | notEqual => "!="
  | identical => "==="
  | notIdentical => "!=="
  | less => "<"
  | lessEqual => "<="
  | greater => ">"
  | greaterEqual => ">="
  | instanceOf => "instanceof"
  | isIn => "in"
  | comma => ","

def ofSymbol? : String → Option BinaryOperator
  | "+" => some add
  | "-" => some sub
  | "*" => some mul
  | "/" => some div
  | "%" => some mod
  | "&&" => some and
  | "||" => some or
  | "&" => some bitAnd
  | "|" => some bitOr
  | "^" => some bitXor
  | "<<" => some shiftLeft
  | ">>" => some shiftRight
  | "==" => some equal
  | "!=" => some notEqual
  | "===" => some identical
  | "!==" => some notIdentical
  | "<" => some less
  | "<=" => some lessEqual
  | ">" => some greater
  | ">=" => some greaterEqual
  | "instanceof" => some instanceOf
  | "in" => some isIn
  | "," => some comma
  | _ => none

theorem ofSymbol?_symbol (op : BinaryOperator) : ofSymbol? op.symbol = some op := by
  cases op <;> rfl

end BinaryOperator

inductive UnaryOperator where
  | not
  | neg
  | plus
  | bitNot
  | typeOf
  | void
deriving DecidableEq, Repr, Inhabited

namespace UnaryOperator

def symbol : UnaryOperator → String
  | not => "!"
  | neg => "-"
  | plus => "+"
  | bitNot => "~"
  | typeOf => "typeof"
  | void => "void"

def ofSymbol? : String → Option UnaryOperator
  | "!" => some not
  | "-" => some neg
  | "+" => some plus
  | "~" => some bitNot
  | "typeof" => some typeOf
  | "void" => some void
  | _ => none

theorem ofSymbol?_symbol (op : UnaryOperator) : ofSymbol? op.symbol = some op := by
  cases op <;> rfl

/-- Whether the operator is a word, which a blank divides from its operand. -/
def isWord : UnaryOperator → Bool
  | typeOf | void => true
  | _ => false

end UnaryOperator

end ClassScript.Script
