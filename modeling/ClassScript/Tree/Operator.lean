/-!
# Operators of the source language
-/

namespace ClassScript

inductive BinaryOp where
  | add
  | sub
  | mul
  | div
  | mod
  | pow
  | concat
  | bitAnd
  | bitOr
  | bitXor
  | shiftLeft
  | shiftRight
  | and
  | or
  | xor
  | equal
  | notEqual
  | identical
  | notIdentical
  | less
  | lessEqual
  | greater
  | greaterEqual
deriving DecidableEq, Repr, Inhabited

/-- The usual spelling of the operator; the words `and` and `or` have it as well. -/
def BinaryOp.symbol : BinaryOp → String
  | add => "+"
  | sub => "-"
  | mul => "*"
  | div => "/"
  | mod => "%"
  | pow => "**"
  | concat => "."
  | bitAnd => "&"
  | bitOr => "|"
  | bitXor => "^"
  | shiftLeft => "<<"
  | shiftRight => ">>"
  | and => "&&"
  | or => "||"
  | xor => "xor"
  | equal => "=="
  | notEqual => "!="
  | identical => "==="
  | notIdentical => "!=="
  | less => "<"
  | lessEqual => "<="
  | greater => ">"
  | greaterEqual => ">="

inductive UnaryOp where
  | not
  | neg
  | plus
  | bitNot
deriving DecidableEq, Repr, Inhabited

/-- Adding or taking one, before or after the value is used. -/
inductive StepOp where
  | preInc
  | preDec
  | postInc
  | postDec
deriving DecidableEq, Repr, Inhabited

inductive CastType where
  | int
  | float
  | string
  | bool
deriving DecidableEq, Repr, Inhabited

end ClassScript
