import ClassScript.Proofs.Script.Constructed
import ClassScript.Proofs.Script.Lexeme
/-!
# Plain nodes and their lexemes

The lexemes of a node follow its structure: where parentheses are needed, in which order its parts
stand and what parts them. The nodes that are called plain are those whose lexemes tell them from
others; what needs no parentheses under an operator starts with an operand
(`Node.startsWith_operand`).
-/

namespace ClassScript.Script

namespace Lexeme

/-! ## The lexemes of a node -/

/-- The lexemes, in parentheses where needed. -/
def wrapped (wrap : Bool) (ls : List Lexeme) : List Lexeme :=
  if wrap then .mark '(' :: (ls ++ [.mark ')']) else ls

/-- What is optional, with what stands before it. -/
def led (l : Lexeme) : Option (List Lexeme) → List Lexeme
  | some ls => l :: ls
  | none => []

/-- An operator. -/
def symbol (s : String) : Lexeme := if isIdentifierName s then .word s else .sign s

def separated (lss : List (List Lexeme)) : List Lexeme := [.mark ','].intercalate lss

end Lexeme

open Lexeme

mutual

/-- The lexemes that a node is printed as. -/
@[simp]
def Node.lexemes : Node → List Lexeme
  | .identifier name => [.word name]
  | .int v => [.word (toString v)]
  | .float v => [.word (Decimal.literal v)]
  | .string s => [literal s]
  | .assign t v => t.lexemes ++ .sign "=" :: v.lexemes
  | .declare name v => .word "var" :: .word name :: (led (.sign "=") (optionLexemes v) ++ [.mark ';'])
  | .binary op l r =>
    wrapped l.wrapsAsOperand l.lexemes ++ symbol op.symbol :: wrapped r.wrapsAsOperand r.lexemes
  | .unary op x => symbol op.symbol :: wrapped x.wrapsUnderUnary x.lexemes
  | .ternary c t o => wrapped c.wrapsInTernary c.lexemes ++ .sign "?" ::
    (wrapped t.wrapsInTernary t.lexemes ++ .sign ":" :: wrapped o.wrapsInTernary o.lexemes)
  | .property o k => wrapped o.wrapsAsObject o.lexemes ++
    if k.isIdentifier then .mark '.' :: k.lexemes else .mark '[' :: (k.lexemes ++ [.mark ']'])
  | .call c as =>
    wrapped c.wrapsAsCallee c.lexemes ++ .mark '(' :: (separated (allLexemes as) ++ [.mark ')'])
  | .new c as => .word "new" ::
    (wrapped c.wrapsAsClass c.lexemes ++ .mark '(' :: (separated (allLexemes as) ++ [.mark ')']))
  | .function ps b => .word "function" :: .mark '(' ::
    (separated (allLexemes ps) ++ .mark ')' :: b.lexemes)
  | .block ss => .mark '\x7b' :: ((allLexemes ss).flatten ++ [.mark '\x7d'])
  | .statement e => wrapped e.wrapsAsStatement e.lexemes ++ [.mark ';']
  | .object fs => .mark '\x7b' :: (separated (fieldLexemes fs) ++ [.mark '\x7d'])
  | .ret v => .word "return" :: ((optionLexemes v).getD [] ++ [.mark ';'])
  | .branch c t o => .word "if" :: .mark '(' ::
    (c.lexemes ++ .mark ')' :: (t.lexemes ++ led (.word "else") (optionLexemes o)))
  | .whileLoop c b => .word "while" :: .mark '(' :: (c.lexemes ++ .mark ')' :: b.lexemes)
  | .forLoop i c s b => .word "for" :: .mark '(' :: ((optionLexemes i).getD [] ++ .mark ';' ::
    ((optionLexemes c).getD [] ++ .mark ';' :: ((optionLexemes s).getD [] ++ .mark ')' :: b.lexemes)))
  | .tryCatch b h f => .word "try" ::
    (b.lexemes ++ (handlerLexemes h ++ led (.word "finally") (optionLexemes f)))
  | .throwValue v => .word "throw" :: (v.lexemes ++ [.mark ';'])
  | .breakLoop => [.word "break", .mark ';']
  | .continueLoop => [.word "continue", .mark ';']
  | .nop => []

@[simp]
def allLexemes : List Node → List (List Lexeme)
  | [] => []
  | n :: ns => n.lexemes :: allLexemes ns

@[simp]
def optionLexemes : Option Node → Option (List Lexeme)
  | none => none
  | some n => some n.lexemes

@[simp]
def fieldLexemes : List Field → List (List Lexeme)
  | [] => []
  | ⟨key, value⟩ :: fs => (literal key :: .sign ":" :: value.lexemes) :: fieldLexemes fs

@[simp]
def handlerLexemes : Option Handler → List Lexeme
  | none => []
  | some ⟨binding, body⟩ => .word "catch" :: .mark '(' :: .word binding :: .mark ')' :: body.lexemes

end

/-! ## Plain nodes -/

/-- The words that printing itself writes; the language reserves all of them. -/
def keywords : List String :=
  ["typeof", "void", "in", "instanceof", "new", "function", "var", "return", "if", "else", "while", "for",
    "try", "catch", "finally", "throw", "break", "continue"]

namespace Node

/-- A name, or names with dots between them. -/
def isDotted : Node → Bool
  | identifier _ => true
  | property o (identifier _) => o.isDotted
  | _ => false

/-- The node itself is none of those whose text could be that of another: fractions, negative numbers,
sequences, empty statements, keywords for names, and instances of anything but a path. -/
def Plain : Node → Prop
  | identifier name => name ∉ keywords
  | int v => 0 ≤ v
  | float _ | nop => False
  | binary op _ _ => op ≠ .comma
  | new c _ => c.isDotted = true
  | _ => True

/-- All nodes of the tree are well formed and plain. -/
def Readable (n : Node) : Prop := ∀ m ∈ n.all, m.Formed ∧ m.Plain

theorem readable_iff {n : Node} :
    n.Readable ↔ (n.Formed ∧ n.Plain) ∧ ∀ c ∈ n.children, c.Readable := forall_mem_all

namespace Readable

variable {n c : Node}

theorem plain (h : n.Readable) : n.Plain := (readable_iff.1 h).1.2

theorem child (h : n.Readable) (hc : c ∈ n.children) : c.Readable := (readable_iff.1 h).2 c hc

theorem role (h : n.Readable) {r : Role} (hc : (r, c) ∈ n.roles) : r.admits c = true :=
  (readable_iff.1 h).1.1.roles (r, c) hc

theorem expression (h : n.Readable) (hc : (.expression, c) ∈ n.roles) : c.isStatement = false := by
  simpa [Role.admits] using h.role hc

theorem name (h : n.Readable) {s : String} (hs : s ∈ n.names) : isIdentifierName s = true :=
  (readable_iff.1 h).1.1.names s hs

end Readable

end Node

/-! ## Words -/

theorem isNameChar_of_isWordStart {c : Char} (h : isWordStart c = true) : isNameChar c = true := by
  simp only [isWordStart, isNameChar, isWordChar, Char.isAlphanum, Bool.or_eq_true] at h ⊢
  tauto

theorem isWord_of_isIdentifierName {name : String} (h : isIdentifierName name = true) : IsWord name := by
  unfold isIdentifierName at h
  split at h
  · cases h
  · next c cs hcs =>
    rw [Bool.and_eq_true, List.all_eq_true] at h
    refine ⟨by simp [hcs], ?_⟩
    rw [hcs, List.forall_mem_cons]
    refine ⟨?_, h.2⟩
    rcases Bool.or_eq_true_iff.1 h.1 with hc | hc
    · exact isNameChar_of_isWordStart hc
    · simp [isNameChar, hc]

theorem toList_toString_natCast (k : Nat) : (toString (k : Int)).toList = Nat.toDigits 10 k := by
  show (Nat.repr k).toList = _
  exact Nat.toList_repr

theorem isDigit_of_mem_toString {k : Nat} {c : Char} (h : c ∈ (toString (k : Int)).toList) :
    c.isDigit = true := by
  rw [toList_toString_natCast] at h
  exact Nat.isDigit_of_mem_toDigits (by decide) (by decide) h

theorem isWord_toString (k : Nat) : IsWord (toString (k : Int)) := by
  refine ⟨?_, fun c hc => ?_⟩
  · rw [toList_toString_natCast]
    exact Nat.toDigits_ne_nil
  · simp [isNameChar, isWordChar, Char.isAlphanum, isDigit_of_mem_toString hc]

theorem toString_not_keyword (k : Nat) : toString (k : Int) ∉ keywords := by
  have hletter : ∀ w ∈ keywords, ∃ c ∈ w.toList, c.isDigit = false := by simp [keywords]
  intro hw
  obtain ⟨c, hc, hdigit⟩ := hletter _ hw
  rw [isDigit_of_mem_toString hc] at hdigit
  cases hdigit

/-! ## First lexemes -/

/-- Words that do not start an operand. -/
def leadingWords : List String :=
  ["typeof", "void", "var", "return", "if", "else", "while", "for", "try", "catch", "finally", "throw",
    "break", "continue"]

/-- Whether an operand can start with the lexeme. -/
def Lexeme.isOperand : Lexeme → Bool
  | .word w => !leadingWords.contains w
  | .text _ => true
  | .mark c => c == '('
  | .sign _ => false

theorem isOperand_of_not_keyword {w : String} (h : w ∉ keywords) : (Lexeme.word w).isOperand = true := by
  have hsub : ∀ w ∈ leadingWords, w ∈ keywords := by decide
  simpa [Lexeme.isOperand] using fun hw => h (hsub w hw)

/-- The lexemes start with one of the kind. -/
def StartsWith (p : Lexeme → Bool) (ls : List Lexeme) : Prop := ∃ l rest, ls = l :: rest ∧ p l = true

namespace StartsWith

variable {p q : Lexeme → Bool} {ls : List Lexeme}

theorem head {l : Lexeme} (h : StartsWith p (l :: ls)) : p l = true := by
  obtain ⟨l', rest, heq, hl⟩ := h
  rwa [(List.cons.inj heq).1]

theorem mono (h : StartsWith p ls) (hpq : ∀ l, p l = true → q l = true) : StartsWith q ls := by
  obtain ⟨l, rest, rfl, hl⟩ := h
  exact ⟨l, rest, rfl, hpq l hl⟩

theorem append (h : StartsWith p ls) (ls' : List Lexeme) : StartsWith p (ls ++ ls') := by
  obtain ⟨l, rest, rfl, hl⟩ := h
  exact ⟨l, rest ++ ls', rfl, hl⟩

theorem wrapped {wrap : Bool} (hp : p (.mark '(') = true) (h : wrap = false → StartsWith p ls) :
    StartsWith p (wrapped wrap ls) := by
  cases wrap with
  | true => exact ⟨_, _, rfl, hp⟩
  | false => exact h rfl

end StartsWith

namespace Node

theorem wrapsUnderUnary_of_wrapsAsObject {n : Node} (h : n.wrapsAsObject = false) :
    n.wrapsUnderUnary = false := by
  unfold wrapsAsObject at h
  split at h
  · cases h
  · cases h
  · exact h

theorem wrapsUnderUnary_of_wrapsAsCallee {n : Node} (h : n.wrapsAsCallee = false) :
    n.wrapsUnderUnary = false := by
  unfold wrapsAsCallee at h
  split at h
  · cases h
  · exact h

/-- What needs no parentheses under an operator starts with an operand. -/
theorem startsWith_operand {n : Node} (h : n.Readable) (hn : n.isStatement = false)
    (hwrap : n.wrapsUnderUnary = false) : StartsWith Lexeme.isOperand n.lexemes := by
  induction n using induction_children with
  | step n ih => cases n with
    | identifier name => exact ⟨.word name, [], rfl, isOperand_of_not_keyword h.plain⟩
    | int v =>
      obtain ⟨k, rfl⟩ := Int.eq_ofNat_of_zero_le h.plain
      exact ⟨.word (toString (k : Int)), [], rfl, isOperand_of_not_keyword (toString_not_keyword k)⟩
    | float v => exact h.plain.elim
    | string s => exact ⟨literal s, [], rfl, rfl⟩
    | new c as => exact ⟨.word "new", _, rfl, rfl⟩
    | property o k =>
      have ho : o ∈ (property o k).children := List.mem_cons_self
      refine StartsWith.append (.wrapped rfl fun hwrap => ?_) _
      exact ih o ho (h.child ho) (h.expression List.mem_cons_self) (wrapsUnderUnary_of_wrapsAsObject hwrap)
    | call c as =>
      have hc : c ∈ (call c as).children := List.mem_cons_self
      refine StartsWith.append (.wrapped rfl fun hwrap => ?_) _
      exact ih c hc (h.child hc) (h.expression List.mem_cons_self) (wrapsUnderUnary_of_wrapsAsCallee hwrap)
    | binary | ternary | assign | function | object | unary => cases hwrap
    | _ => cases hn

end Node

end ClassScript.Script
