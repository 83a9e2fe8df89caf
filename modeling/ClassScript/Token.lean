import ClassScript.Diagnostic
import ClassScript.Text.Word
import ClassScript.Decimal.Shortest
/-!
# Tokens

The parser reads a text as a list of tokens with their positions. Keywords are not told apart from
other names here; the grammar compares them without regard to case.
-/

namespace ClassScript

inductive TokenKind where
  /-- A variable, without its dollar sign. -/
  | variable (name : String)
  /-- A word or a name with its backslashes. -/
  | name (text : String)
  | int (value : Nat)
  | float (value : Float)
  /-- A string literal, decoded. -/
  | str (value : String)
  | punct (symbol : String)
  /-- The opening of a heredoc, which no rule accepts. -/
  | heredoc
deriving DecidableEq, Repr, Inhabited

structure Token where
  kind : TokenKind
  pos : Position
deriving DecidableEq, Repr, Inhabited

/-- The tokens of a text and the position of its end. -/
structure Tokens where
  list : List Token
  finish : Position
deriving DecidableEq, Repr, Inhabited

namespace TokenKind

def isPunct (k : TokenKind) (symbol : String) : Bool :=
  match k with
  | .punct p => p == symbol
  | _ => false

def isWord (k : TokenKind) (word : String) : Bool :=
  match k with
  | .name n => sameWord n word
  | _ => false

/-- How a token is named in a message. -/
def describe : TokenKind → String
  | .variable n => "$" ++ n
  | .name n => n
  | .int v => toString v
  | .float v => Decimal.plain v
  | .str _ => "string literal"
  | .punct p => "'" ++ p ++ "'"
  | .heredoc => "'<<<'"

end TokenKind

namespace Token

def isPunct (t : Token) (symbol : String) : Bool := t.kind.isPunct symbol

def isWord (t : Token) (word : String) : Bool := t.kind.isWord word

end Token

end ClassScript
