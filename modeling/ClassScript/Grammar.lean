import ClassScript.Grammar.Statement
import ClassScript.Token.Scan
/-!
# The grammar

The rules for `n + 1` tokens are made from those for `n`, since every rule that refers to another
does so behind a token of its own. A text of `k` tokens is read by the rules of level `k + 1`.
-/

namespace ClassScript

namespace Grammar

/-- Nothing is to be read at level zero. -/
def Rules.zero : Rules 0 := ⟨fun _ => .never, .never, .never, .never, .never⟩

/-- The rules of the level above. -/
def Rules.succ {n : Nat} (self : Rules n) : Rules (n + 1) :=
  { expr := Grammar.expr self
    unary := Grammar.unary self
    suffixed := Grammar.suffixed self
    primary := Grammar.primary self
    stmt := Grammar.stmt self }

def rules : (n : Nat) → Rules n
  | 0 => .zero
  | n + 1 => (rules n).succ

/-- The statements up to the end of the text. -/
def file (self : Rules n) : Reads n (List Stmt) := Parser.many List.isEmpty self.stmt

def statements (tokens : Tokens) : Result (List Stmt) :=
  match (file (rules (tokens.list.length + 1))).run tokens.list (Nat.lt_succ_self _) with
  | .error fault => .error (fault.diagnostic tokens.finish)
  | .ok reply => .ok reply.value

end Grammar

/-- Reads a source text; a diagnostic names the file. -/
def SourceFile.parse (path source : String) : Result SourceFile :=
  Except.mapError (·.inFile path) do
    let tokens ← Token.scan source
    return ⟨path, ← Grammar.statements tokens⟩

end ClassScript
