import ClassScript.Proofs.Text.Quoted
import ClassScript.Script.Build
import ClassScript.Script.Print
import Mathlib.Data.List.Forall2
/-!
# Lexemes

A text is cut into lexemes without regard to blanks and line breaks, so indentation does not count
(`lexFrom_indented`). A name ends only where no character of a name follows: a text `Spells` lexemes
before all that is parted from it, and is `Closed` if anything may follow.
-/

namespace ClassScript.Script

inductive Lexeme where
  | word (w : String)
  | sign (s : String)
  /-- A literal, as it is spelled between its quotes. -/
  | text (s : String)
  | mark (c : Char)
deriving DecidableEq

namespace Lexeme

/-! ## Cutting a text -/

def isNameChar (c : Char) : Bool := isWordChar c || c == '$'

def isSignChar (c : Char) : Bool := "+-*/%&|^<>=!~?:".toList.contains c

/-- What was read of the lexeme at hand, the last character first. -/
inductive State where
  | gap
  | word (read : List Char)
  | sign (read : List Char)
  | quoted (read : List Char)
  /-- Behind a backslash. -/
  | escaped (read : List Char)
  /-- Behind a line break in a literal. -/
  | broken

namespace State

/-- The lexeme that ends where the text ends. -/
def flush : State → List Lexeme
  | word read => [.word (.ofList read.reverse)]
  | sign read => [.sign (.ofList read.reverse)]
  | _ => []

/-- The first character of a lexeme, or one between lexemes. -/
def start (c : Char) : State × List Lexeme :=
  if c = ' ' ∨ c = '\n' then (gap, [])
  else if isNameChar c then (word [c], [])
  else if isSignChar c then (sign [c], [])
  else if c = '"' then (quoted [], [])
  else (gap, [.mark c])

/-- The state behind a character and the lexemes that it ends. -/
def next : State → Char → State × List Lexeme
  | gap, c => start c
  | word read, c =>
    if isNameChar c then (word (c :: read), []) else ((start c).1, (word read).flush ++ (start c).2)
  | sign read, c =>
    if isSignChar c then (sign (c :: read), []) else ((start c).1, (sign read).flush ++ (start c).2)
  | quoted read, c =>
    if c = '"' then (gap, [.text (.ofList read.reverse)])
    else if c = '\\' then (escaped (c :: read), [])
    else if c = '\n' then (broken, [])
    else (quoted (c :: read), [])
  | escaped read, c => if c = '\n' then (broken, []) else (quoted (c :: read), [])
  | broken, _ => (broken, [])

end State

/-- The lexemes of a text that is read in some state. -/
def lexFrom : State → List Char → List Lexeme
  | st, [] => st.flush
  | st, c :: cs => (st.next c).2 ++ lexFrom (st.next c).1 cs

attribute [local simp] State.next State.flush lexFrom

def lex (cs : List Char) : List Lexeme := lexFrom .gap cs

/-- The text does not go on with a character of a name. -/
def Parted (rest : List Char) : Prop := ∀ c ∈ rest.head?, isNameChar c = false

theorem parted_nil : Parted [] := by
  rintro _ ⟨⟩

/-! ## Words -/

/-- The text is a word. -/
def IsWord (w : String) : Prop := w.toList ≠ [] ∧ ∀ c ∈ w.toList, isNameChar c = true

theorem lexFrom_word {read cs rest : List Char} (hcs : ∀ c ∈ cs, isNameChar c = true) (hrest : Parted rest) :
    lexFrom (.word read) (cs ++ rest) = .word (.ofList (read.reverse ++ cs)) :: lex rest := by
  induction cs generalizing read with
  | nil =>
    cases rest with
    | nil => simp [lex]
    | cons c rest =>
      have hc : isNameChar c = false := hrest c rfl
      simp [lex, hc]
  | cons c cs ih =>
    rw [List.forall_mem_cons] at hcs
    simp [hcs.1, ih hcs.2]

theorem start_word {c : Char} (hc : isNameChar c = true) : State.start c = (.word [c], []) := by
  have hblank : ¬(c = ' ' ∨ c = '\n') := by
    rintro (rfl | rfl) <;> exact absurd hc (by decide)
  rw [State.start, if_neg hblank, if_pos hc]

theorem lex_word {w : String} (hw : IsWord w) {rest : List Char} (hrest : Parted rest) :
    lex (w.toList ++ rest) = .word w :: lex rest := by
  obtain ⟨hne, hall⟩ := hw
  cases hcs : w.toList with
  | nil => exact absurd hcs hne
  | cons c cs =>
    rw [hcs, List.forall_mem_cons] at hall
    have hstep : lex (c :: cs ++ rest) = lexFrom (.word [c]) (cs ++ rest) := by
      simp [lex, start_word hall.1]
    rw [hstep, lexFrom_word hall.2 hrest, List.reverse_singleton, List.singleton_append, ← hcs,
      String.ofList_toList]

/-! ## Signs -/

/-- A sign ends before what is no sign. -/
theorem lexFrom_sign {read : List Char} {c : Char} {rest : List Char} (hc : isSignChar c = false) :
    lexFrom (.sign read) (c :: rest) = .sign (.ofList read.reverse) :: lex (c :: rest) := by
  simp [lex, hc]

theorem start_sign {c : Char} (hc : isSignChar c = true) : State.start c = (.sign [c], []) := by
  have hother : "+-*/%&|^<>=!~?:".toList.all fun c => !(c == ' ' || c == '\n' || isNameChar c) := by decide
  have h := List.all_eq_true.1 hother c (List.contains_iff_mem.1 hc)
  simp only [Bool.not_eq_true', Bool.or_eq_false_iff, beq_eq_false_iff_ne] at h
  simp [State.start, h, hc]

/-- What starts within a sign, gives a sign first. -/
theorem lexFrom_sign_eq (read cs : List Char) : ∃ s ls, lexFrom (.sign read) cs = .sign s :: ls := by
  induction cs generalizing read with
  | nil => exact ⟨_, [], rfl⟩
  | cons c cs ih =>
    by_cases hc : isSignChar c = true
    · obtain ⟨s, ls, h⟩ := ih (c :: read)
      exact ⟨s, ls, by simpa [hc] using h⟩
    · exact ⟨_, _, lexFrom_sign (by simpa using hc)⟩

theorem lex_sign {c : Char} (hc : isSignChar c = true) (cs : List Char) :
    lex (c :: cs) = lexFrom (.sign [c]) cs := by
  simp [lex, start_sign hc]

/-! ## Literals -/

/-- A character that stands for itself in a literal. -/
def isPlain (c : Char) : Bool := !List.contains ['"', '\\', '\n'] c

theorem next_quoted {read : List Char} {c : Char} (h : isPlain c = true) :
    (State.quoted read).next c = (.quoted (c :: read), []) := by
  simp only [isPlain, List.contains_cons, List.contains_nil, Bool.or_false, Bool.not_eq_true',
    Bool.or_eq_false_iff, beq_eq_false_iff_ne] at h
  simp [h]

theorem isPlain_hexDigit : ∀ n, n < 16 → isPlain (Quoted.hexDigit n) = true := by decide

theorem lexFrom_encodeChar (read : List Char) (c : Char) (rest : List Char) :
    lexFrom (.quoted read) (Quoted.encodeChar c ++ rest) =
      lexFrom (.quoted ((Quoted.encodeChar c).reverse ++ read)) rest := by
  cases hletter : Quoted.hasLetter c with
  | true =>
    simp only [Quoted.hasLetter, List.contains_iff_mem, List.mem_cons, List.not_mem_nil, or_false] at hletter
    rcases hletter with rfl | rfl | rfl | rfl | rfl | rfl | rfl <;> rfl
  | false =>
    rw [Quoted.encodeChar_eq hletter]
    split
    · next h =>
      have hhigh := isPlain_hexDigit (c.toNat / 16) (by omega)
      have hlow := isPlain_hexDigit (c.toNat % 16) (by omega)
      show lexFrom (.quoted ('0' :: '0' :: 'u' :: '\\' :: read)) (_ :: _ :: rest) = _
      simp [-State.next, next_quoted hhigh, next_quoted hlow]
    · have hplain : isPlain c = true := by
        simp only [Quoted.hasLetter, isPlain, List.contains_cons, List.contains_nil] at hletter ⊢
        grind
      simp [-State.next, next_quoted hplain]

theorem lexFrom_encode (read cs rest : List Char) : lexFrom (.quoted read) (Quoted.encode cs ++ rest) =
    lexFrom (.quoted ((Quoted.encode cs).reverse ++ read)) rest := by
  induction cs generalizing read with
  | nil => rfl
  | cons c cs ih =>
    have hcons : Quoted.encode (c :: cs) = Quoted.encodeChar c ++ Quoted.encode cs := rfl
    rw [hcons, List.append_assoc, lexFrom_encodeChar, ih, List.reverse_append, List.append_assoc]

/-- The lexeme of a literal. -/
def literal (s : String) : Lexeme := .text (.ofList (Quoted.encode s.toList))

theorem lex_quote (s : String) (rest : List Char) :
    lex ((Quoted.quote s).toList ++ rest) = literal s :: lex rest := by
  rw [Quoted.quote, String.toList_ofList, List.cons_append, List.append_assoc]
  show lexFrom (.quoted []) _ = _
  rw [lexFrom_encode, List.append_nil]
  show [Lexeme.text _] ++ lex rest = _
  rw [List.reverse_reverse, literal, List.singleton_append]

/-! ## Indentation -/

theorem lexFrom_blanks {st : State} (hst : st = .gap ∨ st = .broken) {blanks : List Char}
    (hblanks : ∀ c ∈ blanks, c = ' ') (rest : List Char) :
    lexFrom st (blanks ++ rest) = lexFrom st rest := by
  induction blanks with
  | nil => rfl
  | cons c cs ih =>
    rw [List.forall_mem_cons] at hblanks
    obtain ⟨rfl, hcs⟩ := hblanks
    rcases hst with rfl | rfl <;> exact ih hcs

/-- Behind a line break there is no lexeme at hand. -/
theorem next_newline (st : State) : (st.next '\n').1 = .gap ∨ (st.next '\n').1 = .broken := by
  cases st with
  | gap | word _ | sign _ => exact .inl rfl
  | quoted _ | escaped _ | broken => exact .inr rfl

/-- Indentation makes no difference. -/
theorem lexFrom_indented {unit : String} (hunit : ∀ c ∈ unit.toList, c = ' ') (text : String)
    (st : State) (rest : List Char) :
    lexFrom st ((indented unit text).toList ++ rest) = lexFrom st (text.toList ++ rest) := by
  rw [indented, String.toList_ofList]
  induction text.toList generalizing st with
  | nil => rfl
  | cons c cs ih =>
    by_cases hc : c = '\n'
    · subst hc
      simp only [List.flatMap_cons, if_true, List.cons_append, List.append_assoc, lexFrom]
      rw [lexFrom_blanks (next_newline st) hunit, ih]
    · simp [hc, ih]

/-! ## Spelled lexemes -/

/-- The text spells the lexemes, if no name goes on behind it. -/
def Spells (text : String) (ls : List Lexeme) : Prop :=
  ∀ rest, Parted rest → lex (text.toList ++ rest) = ls ++ lex rest

/-- The text spells the lexemes, whatever stands behind it. -/
def Closed (text : String) (ls : List Lexeme) : Prop :=
  ∀ rest, lex (text.toList ++ rest) = ls ++ lex rest

/-- The text starts with a character that is none of a name. -/
def startsApart (text : String) : Bool := text.toList.head?.any (!isNameChar ·)

theorem parted_append {text : String} (h : startsApart text = true) (rest : List Char) :
    Parted (text.toList ++ rest) := by
  unfold startsApart at h
  cases hcs : text.toList with
  | nil => simp [hcs] at h
  | cons c cs => simpa [hcs, Parted] using h

theorem startsApart_append {text : String} (h : startsApart text = true) (text' : String) :
    startsApart (text ++ text') = true := by
  unfold startsApart at h ⊢
  rw [String.toList_append]
  cases hcs : text.toList with
  | nil => simp [hcs] at h
  | cons c cs => simpa [hcs] using h

/-- Behind the text nothing goes on with a character of a name that did not before it. -/
def Apart (text : String) : Prop := ∀ rest, Parted rest → Parted (text.toList ++ rest)

theorem apart_empty : Apart "" := fun _ hrest => hrest

theorem apart_of_startsApart {text : String} (h : startsApart text = true) : Apart text :=
  fun rest _ => parted_append h rest

namespace Spells

variable {text text' : String} {ls ls' : List Lexeme}

theorem word (h : IsWord text) : Spells text [.word text] := fun _ hrest => lex_word h hrest

theorem quote (s : String) : Spells (Quoted.quote s) [literal s] := fun rest _ => lex_quote s rest

/-- What is parted from a text may follow it. -/
theorem append (h : Spells text ls) (h' : Spells text' ls') (hapart : Apart text') :
    Spells (text ++ text') (ls ++ ls') := by
  intro rest hrest
  rw [String.toList_append, List.append_assoc, h _ (hapart rest hrest), h' rest hrest,
    List.append_assoc]

theorem close (h : Spells text ls) (h' : Closed text' ls') (hapart : startsApart text' = true) :
    Closed (text ++ text') (ls ++ ls') := by
  intro rest
  rw [String.toList_append, List.append_assoc, h _ (parted_append hapart rest), h' rest,
    List.append_assoc]

theorem indented {unit : String} (hunit : ∀ c ∈ unit.toList, c = ' ') (h : Spells text ls) :
    Spells (indented unit text) ls :=
  fun rest hrest => (lexFrom_indented hunit text .gap rest).trans (h rest hrest)

end Spells

namespace Closed

variable {text text' : String} {ls ls' : List Lexeme}

theorem spells (h : Closed text ls) : Spells text ls := fun rest _ => h rest

theorem append (h : Closed text ls) (h' : Closed text' ls') : Closed (text ++ text') (ls ++ ls') := by
  intro rest
  rw [String.toList_append, List.append_assoc, h, h', List.append_assoc]

theorem spell (h : Closed text ls) (h' : Spells text' ls') : Spells (text ++ text') (ls ++ ls') := by
  intro rest hrest
  rw [String.toList_append, List.append_assoc, h, h' rest hrest, List.append_assoc]

theorem blanks {unit : String} (hunit : ∀ c ∈ unit.toList, c = ' ') : Closed unit [] :=
  lexFrom_blanks (.inl rfl) hunit

end Closed

/-- Texts with a separator between them. -/
theorem Spells.intercalate {separator : String} {mark : List Lexeme} (hmark : Closed separator mark)
    (hapart : startsApart separator = true) {texts : List String} {lss : List (List Lexeme)}
    (h : List.Forall₂ Spells texts lss) : Spells (separator.intercalate texts) (mark.intercalate lss) := by
  induction h with
  | nil => exact fun _ _ => rfl
  | @cons text ls texts lss htext hrest ih =>
    cases hrest with
    | nil => simpa using htext
    | cons htext' hrest =>
      rw [String.intercalate_cons_cons, List.intercalate_cons_cons]
      exact (htext.close hmark hapart).spell ih

end Lexeme

end ClassScript.Script
