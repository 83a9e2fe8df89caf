import ClassScript.Token
import ClassScript.Token.Literal
/-!
# Scanning

A text is cut into lexemes by taking, at each place, the longest prefix that some rule accepts. Blank
space, comments and opening tags are dropped; a closing tag ends the list. `lexeme` finds the rule
and the length, `tokensFrom` goes through the text.
-/

namespace ClassScript

/-- The kinds of lexemes. -/
inductive Rule where
  | blank
  | openTag
  | closeTag
  | lineComment
  | blockComment
  | heredoc
  | variable
  | name
  | hex
  | int
  | float
  | singleQuoted
  | doubleQuoted
  | punct
deriving DecidableEq, Repr

namespace Rule

/-- The length of `text` if the input starts with it, else zero. -/
def fixed (text : String) (cs : List Char) : Nat :=
  if text.toList.isPrefixOf cs then text.length else 0

def isBlank (c : Char) : Bool := c == ' ' || c == '\t' || c == '\r' || c == '\n' || c == '\x0c'

def run (p : Char → Bool) (cs : List Char) : Nat := (cs.takeWhile p).length

/-- The length of a block comment whose opening has been read: up to the first `*/`, or all. -/
def toCommentEnd : List Char → Nat
  | '*' :: '/' :: _ => 2
  | _ :: cs => toCommentEnd cs + 1
  | [] => 0

/-- The length of a word. -/
def word : List Char → Nat
  | c :: cs => if isWordStart c then run isWordChar cs + 1 else 0
  | [] => 0

/-- The length of further name segments, each led by a backslash. -/
def moreSegments (cs : List Char) : Nat :=
  match cs with
  | '\\' :: rest =>
    match word rest with
    | 0 => 0
    | n + 1 => moreSegments (rest.drop (n + 1)) + (n + 2)
  | _ => 0
termination_by cs.length
decreasing_by simp only [List.length_cons, List.length_drop]; omega

/-- The length of a name: a word, perhaps after a backslash, and further segments. -/
def nameLength (cs : List Char) : Nat :=
  let lead := match cs with
    | '\\' :: _ => 1
    | _ => 0
  match word (cs.drop lead) with
  | 0 => 0
  | n + 1 => lead + (n + 1) + moreSegments (cs.drop (lead + (n + 1)))

def isHexDigit (c : Char) : Bool :=
  c.isDigit || ('a' ≤ c && c ≤ 'f') || ('A' ≤ c && c ≤ 'F')

/-- The length of a hexadecimal integer. -/
def hexLength : List Char → Nat
  | '0' :: x :: cs =>
    if x = 'x' ∨ x = 'X' then
      match run isHexDigit cs with
      | 0 => 0
      | n + 1 => n + 3
    else 0
  | _ => 0

/-- The length of an exponent part. -/
def exponentLength : List Char → Nat
  | e :: cs =>
    if e = 'e' ∨ e = 'E' then
      let sign := match cs with
        | '+' :: _ => 1
        | '-' :: _ => 1
        | _ => 0
      match run Char.isDigit (cs.drop sign) with
      | 0 => 0
      | n + 1 => 1 + sign + (n + 1)
    else 0
  | [] => 0

/-- The length of a float: digits behind a point, or digits with an exponent. -/
def floatLength (cs : List Char) : Nat :=
  let whole := run Char.isDigit cs
  match cs.drop whole with
  | '.' :: rest =>
    match run Char.isDigit rest with
    | 0 => 0
    | n + 1 => whole + 1 + (n + 1) + exponentLength (rest.drop (n + 1))
  | rest =>
    match whole, exponentLength rest with
    | 0, _ => 0
    | _, 0 => 0
    | w + 1, n + 1 => (w + 1) + (n + 1)

/-- The length of the rest of a string literal, its closing quote included; zero without one. -/
def toQuote (q : Char) : List Char → Nat
  | [] => 0
  | ['\\'] => 0
  | '\\' :: _ :: cs =>
    match toQuote q cs with
    | 0 => 0
    | n + 1 => n + 3
  | c :: cs =>
    if c = q then 1
    else match toQuote q cs with
      | 0 => 0
      | n + 1 => n + 2

/-- The length of a string literal. -/
def stringLength (q : Char) : List Char → Nat
  | c :: cs =>
    if c = q then
      match toQuote q cs with
      | 0 => 0
      | n + 1 => n + 2
    else 0
  | [] => 0

/-- The operators and brackets of the language. -/
def symbols : List String :=
  ["**=", "...", "<<=", ">>=", "===", "!==", "??=", "++", "--", "+=", "-=", "*=", "/=", ".=", "%=",
    "&=", "|=", "^=", "**", "==", "!=", "<>", "<=", ">=", "&&", "||", "??", "<<", ">>", "->", "=>",
    "::", "-", "+", "*", "/", "%", ".", "=", "<", ">", "!", "&", "|", "^", "~", "?", ":", ";", ",",
    "(", ")", "\x7b", "\x7d", "[", "]", "@", "$"]

/-- The length of the longest prefix of the input that the rule accepts, zero if there is none. -/
def length (rule : Rule) (cs : List Char) : Nat :=
  match rule with
  | .blank => run isBlank cs
  | .openTag => fixed "<?php" cs
  | .closeTag => fixed "?>" cs
  | .lineComment => if fixed "//" cs + fixed "#" cs = 0 then 0 else run (· != '\n') cs
  | .blockComment => if fixed "/*" cs = 0 then 0 else 2 + toCommentEnd (cs.drop 2)
  | .heredoc => fixed "<<<" cs
  | .variable =>
    match cs with
    | '$' :: rest =>
      match word rest with
      | 0 => 0
      | n + 1 => n + 2
    | _ => 0
  | .name => nameLength cs
  | .hex => hexLength cs
  | .int => run Char.isDigit cs
  | .float => floatLength cs
  | .singleQuoted => stringLength '\'' cs
  | .doubleQuoted => stringLength '"' cs
  | .punct => symbols.foldl (fun n s => max n (fixed s cs)) 0

def all : List Rule :=
  [.blank, .openTag, .closeTag, .lineComment, .blockComment, .heredoc, .variable, .name, .hex, .int,
    .float, .singleQuoted, .doubleQuoted, .punct]

/-- The rule with the longest match and that length; of equally long matches the first. -/
def longest (cs : List Char) : Rule × Nat :=
  all.foldl (fun best r => if best.2 < r.length cs then (r, r.length cs) else best) (.blank, 0)

end Rule

/-- Why a text has no tokens. -/
inductive ScanFault where
  | unexpected (c : Char)
  | interpolation (start : Literal.Interpolation)
deriving DecidableEq, Repr

def ScanFault.diagnostic : ScanFault → Diagnostic
  | .unexpected c =>
    { kind := .parse, message := "unexpected character '" ++ String.singleton c ++ "'" }
  | .interpolation start =>
    { kind := .unsupported
      message := "string interpolation is not supported"
      hints := match start with
        | .dollar => ["use the concatenation operator instead"]
        | .brace => [] }

namespace Token

/-- What a lexeme stands for; `none` for one that is dropped. -/
def ofLexeme (rule : Rule) (first : Char) (text : List Char) : Except ScanFault (Option TokenKind) :=
  match rule with
  | .blank | .openTag | .closeTag | .lineComment | .blockComment => .ok none
  | .heredoc => .ok (some .heredoc)
  | .variable => .ok (some (.variable (String.ofList (text.drop 1))))
  | .name => .ok (some (.name (String.ofList text)))
  | .hex => match Literal.integer? 16 (text.drop 2) with
    | some n => .ok (some (.int n))
    | none => .error (.unexpected first)
  | .int => match Literal.integer? 10 text with
    | some n => .ok (some (.int n))
    | none => .error (.unexpected first)
  | .float => .ok (some (.float (Literal.float text)))
  | .singleQuoted => .ok (some (.str (String.ofList (Literal.single (text.drop 1).dropLast))))
  | .doubleQuoted => match Literal.double (text.drop 1).dropLast with
    | .ok cs => .ok (some (.str (String.ofList cs)))
    | .error start => .error (.interpolation start)
  | .punct => .ok (some (.punct (String.ofList text)))

/-- The tokens of the text `cs`, which starts at `pos`. -/
def tokensFrom (pos : Position) : List Char → Result Tokens
  | [] => .ok ⟨[], pos⟩
  | c :: rest =>
    let best := Rule.longest (c :: rest)
    let text := c :: rest.take (best.2 - 1)
    if best.2 = 0 then .error ((ScanFault.unexpected c).diagnostic.placed pos)
    else if best.1 = .closeTag then .ok ⟨[], pos.after (c :: rest)⟩
    else do
      let kind ← (ofLexeme best.1 c text).mapError (·.diagnostic.placed pos)
      let more ← tokensFrom (pos.after text) (rest.drop (best.2 - 1))
      match kind with
      | none => return more
      | some kind => return ⟨⟨kind, pos⟩ :: more.list, more.finish⟩
termination_by cs => cs.length
decreasing_by simp only [List.length_cons, List.length_drop]; omega

/-- The tokens of a source text. -/
def scan (source : String) : Result Tokens := tokensFrom .start source.toList

end Token

end ClassScript
