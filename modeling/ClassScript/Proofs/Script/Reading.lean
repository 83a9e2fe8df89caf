import ClassScript.Proofs.Script.Spelling
import Mathlib.Order.Filter.AtTopBot.Basic
/-!
# Reading lexemes

A reader for the lexemes of printed nodes, by recursive descent to a depth that is given. It accepts
more than printing gives, but has no choice where it goes on: the next lexeme decides. For each kind of
node a lemma says what the reader makes of its lexemes if it may go deep enough (`Gives`), given what
it makes of those of the parts. An operand may be followed by anything; the other levels end where the
lexeme behind them does not continue them (`Ends`).
-/

namespace ClassScript.Script

open Filter

namespace Lexeme

/-! ## The reader -/

/-- The lexemes behind the expected one. -/
def eat (l : Lexeme) : List Lexeme → Option (List Lexeme)
  | l' :: r => if l' = l then some r else none
  | [] => none

def binaryOperator? : Lexeme → Option BinaryOperator
  | .sign s | .word s => BinaryOperator.ofSymbol? s
  | _ => none

def unaryOperator? : Lexeme → Option UnaryOperator
  | .sign s => UnaryOperator.ofSymbol? s
  | .word w => if w = "typeof" then some .typeOf else if w = "void" then some .void else none
  | _ => none

/-- What a word stands for: a number or a name. -/
def atom (w : String) : Node :=
  if w.toList.head?.any Char.isDigit then .int (Nat.ofDigitChars 10 w.toList 0) else .identifier w

/-- The path that goes on behind a node. -/
def readDots (o : Node) : List Lexeme → Node × List Lexeme
  | .mark '.' :: .word w :: r => readDots (.property o (.identifier w)) r
  | r => (o, r)

def readPath : List Lexeme → Option (Node × List Lexeme)
  | .word w :: r => some (readDots (.identifier w) r)
  | _ => none

mutual

def readExpr : Nat → List Lexeme → Option (Node × List Lexeme)
  | 0, _ => none
  | depth + 1, ls => do
    let (n, r) ← readOperation depth ls
    match r with
    | .sign "=" :: r => do
      let (v, r) ← readExpr depth r
      return (.assign n v, r)
    | .sign "?" :: r => do
      let (t, r) ← readOperation depth r
      let r ← eat (.sign ":") r
      let (o, r) ← readOperation depth r
      return (.ternary n t o, r)
    | r => return (n, r)

/-- An operand, or two with an operator between them. -/
def readOperation : Nat → List Lexeme → Option (Node × List Lexeme)
  | 0, _ => none
  | depth + 1, ls => do
    let (n, r) ← readUnary depth ls
    match r with
    | l :: r' => match binaryOperator? l with
      | some op => do
        let (n', r) ← readUnary depth r'
        return (.binary op n n', r)
      | none => return (n, r)
    | [] => return (n, [])

def readUnary : Nat → List Lexeme → Option (Node × List Lexeme)
  | 0, _ => none
  | depth + 1, l :: r => match unaryOperator? l with
    | some op => do
      let (n, r) ← readOperand depth r
      return (.unary op n, r)
    | none => readOperand depth (l :: r)
  | _ + 1, [] => none

def readOperand : Nat → List Lexeme → Option (Node × List Lexeme)
  | 0, _ => none
  | depth + 1, ls => do
    let (n, r) ← readPrimary depth ls
    readSuffixes depth n r

/-- The accesses and calls that follow a node. -/
def readSuffixes : Nat → Node → List Lexeme → Option (Node × List Lexeme)
  | 0, _, _ => none
  | depth + 1, n, ls => match ls with
    | .mark '.' :: .word w :: r => readSuffixes depth (.property n (.identifier w)) r
    | .mark '[' :: r => do
      let (k, r) ← readExpr depth r
      let r ← eat (.mark ']') r
      readSuffixes depth (.property n k) r
    | .mark '(' :: r => do
      let (as, r) ← readArgs depth r
      readSuffixes depth (.call n as) r
    | r => return (n, r)

/-- Arguments and the parenthesis behind them. -/
def readArgs : Nat → List Lexeme → Option (List Node × List Lexeme)
  | 0, _ => none
  | depth + 1, ls => match ls with
    | .mark ')' :: r => return ([], r)
    | .mark ',' :: r => readArgs depth r
    | r => do
      let (a, r) ← readExpr depth r
      let (as, r) ← readArgs depth r
      return (a :: as, r)

def readPrimary : Nat → List Lexeme → Option (Node × List Lexeme)
  | 0, _ => none
  | depth + 1, ls => match ls with
    | .mark '(' :: r => do
      let (n, r) ← readExpr depth r
      let r ← eat (.mark ')') r
      return (n, r)
    | .mark '\x7b' :: r => do
      let (fs, r) ← readFields depth r
      return (.object fs, r)
    | .text s :: r => do
      let s ← Quoted.decode s.toList
      return (.string (.ofList s), r)
    | .word "function" :: r => do
      let r ← eat (.mark '(') r
      let (ps, r) ← readArgs depth r
      let (b, r) ← readBlock depth r
      return (.function ps b, r)
    | .word "new" :: r => do
      let (c, r) ← readPath r
      let r ← eat (.mark '(') r
      let (as, r) ← readArgs depth r
      return (.new c as, r)
    | .word w :: r => return (atom w, r)
    | _ => none

/-- Fields and the brace behind them. -/
def readFields : Nat → List Lexeme → Option (List Field × List Lexeme)
  | 0, _ => none
  | depth + 1, ls => match ls with
    | .mark '\x7d' :: r => return ([], r)
    | .mark ',' :: r => readFields depth r
    | .text k :: r => do
      let k ← Quoted.decode k.toList
      let r ← eat (.sign ":") r
      let (v, r) ← readExpr depth r
      let (fs, r) ← readFields depth r
      return (⟨.ofList k, v⟩ :: fs, r)
    | _ => none

/-- An expression, if there is one before the mark, and the mark. -/
def readUntil (c : Char) : Nat → List Lexeme → Option (Option Node × List Lexeme)
  | 0, _ => none
  | depth + 1, ls => match eat (.mark c) ls with
    | some r => return (none, r)
    | none => do
      let (n, r) ← readExpr depth ls
      let r ← eat (.mark c) r
      return (some n, r)

def readBlock : Nat → List Lexeme → Option (Node × List Lexeme)
  | 0, _ => none
  | depth + 1, ls => do
    let r ← eat (.mark '\x7b') ls
    let (ss, r) ← readStmts depth r
    return (.block ss, r)

/-- Statements and the brace behind them. -/
def readStmts : Nat → List Lexeme → Option (List Node × List Lexeme)
  | 0, _ => none
  | depth + 1, ls => match ls with
    | .mark '\x7d' :: r => return ([], r)
    | r => do
      let (s, r) ← readStmt depth r
      let (ss, r) ← readStmts depth r
      return (s :: ss, r)

def readHandler : Nat → List Lexeme → Option (Option Handler × List Lexeme)
  | 0, _ => none
  | depth + 1, ls => match ls with
    | .word "catch" :: .mark '(' :: .word binding :: .mark ')' :: r => do
      let (b, r) ← readBlock depth r
      return (some ⟨binding, b⟩, r)
    | r => return (none, r)

def readCleanup : Nat → List Lexeme → Option (Option Node × List Lexeme)
  | 0, _ => none
  | depth + 1, ls => match ls with
    | .word "finally" :: r => do
      let (b, r) ← readBlock depth r
      return (some b, r)
    | r => return (none, r)

def readStmt : Nat → List Lexeme → Option (Node × List Lexeme)
  | 0, _ => none
  | depth + 1, ls => match ls with
    | .mark '\x7b' :: r => readBlock depth (.mark '\x7b' :: r)
    | .word "var" :: .word name :: .sign "=" :: r => do
      let (v, r) ← readUntil ';' depth r
      return (.declare name v, r)
    | .word "var" :: .word name :: r => do
      let r ← eat (.mark ';') r
      return (.declare name none, r)
    | .word "return" :: r => do
      let (v, r) ← readUntil ';' depth r
      return (.ret v, r)
    | .word "if" :: r => do
      let r ← eat (.mark '(') r
      let (c, r) ← readExpr depth r
      let r ← eat (.mark ')') r
      let (b, r) ← readBlock depth r
      match r with
      | .word "else" :: r => do
        let (o, r) ← readStmt depth r
        return (.branch c b (some o), r)
      | r => return (.branch c b none, r)
    | .word "while" :: r => do
      let r ← eat (.mark '(') r
      let (c, r) ← readExpr depth r
      let r ← eat (.mark ')') r
      let (b, r) ← readBlock depth r
      return (.whileLoop c b, r)
    | .word "for" :: r => do
      let r ← eat (.mark '(') r
      let (i, r) ← readUntil ';' depth r
      let (c, r) ← readUntil ';' depth r
      let (s, r) ← readUntil ')' depth r
      let (b, r) ← readBlock depth r
      return (.forLoop i c s b, r)
    | .word "try" :: r => do
      let (b, r) ← readBlock depth r
      let (h, r) ← readHandler depth r
      let (f, r) ← readCleanup depth r
      return (.tryCatch b h f, r)
    | .word "throw" :: r => do
      let (v, r) ← readExpr depth r
      let r ← eat (.mark ';') r
      return (.throwValue v, r)
    | .word "break" :: r => do
      let r ← eat (.mark ';') r
      return (.breakLoop, r)
    | .word "continue" :: r => do
      let r ← eat (.mark ';') r
      return (.continueLoop, r)
    | r => do
      let (e, r) ← readExpr depth r
      let r ← eat (.mark ';') r
      return (.statement e, r)

end

/-! ## Depth -/

/-- From some depth on the reader gives the value. -/
def Gives {α : Type} (read : Nat → Option α) (a : α) : Prop := ∀ᶠ depth in atTop, read depth = some a

namespace Gives

variable {α : Type} {read : Nat → Option α} {a b : α}

theorem deeper (h : Gives (fun depth => read (depth + 1)) a) : Gives read a := by
  rw [Gives, ← map_add_atTop_eq_nat 1, eventually_map]
  exact h

theorem always (h : ∀ depth, read (depth + 1) = some a) : Gives read a := deeper (.of_forall h)

/-- Readers that go deep enough agree. -/
theorem unique (ha : Gives read a) (hb : Gives read b) : a = b := by
  obtain ⟨depth, ha, hb⟩ := (ha.and hb).exists
  exact Option.some.inj (ha.symm.trans hb)

end Gives

/-! ## Where a reader stops -/

/-- The lexemes do not start with one of the kind. -/
def Ends (p : Lexeme → Bool) : List Lexeme → Prop
  | [] => True
  | l :: _ => p l = false

theorem Ends.mono {p q : Lexeme → Bool} (hpq : ∀ l, q l = true → p l = true) {ls : List Lexeme}
    (h : Ends p ls) : Ends q ls := by
  cases ls with
  | nil => trivial
  | cons l ls => exact Bool.eq_false_iff.2 fun hq => Bool.eq_false_iff.1 h (hpq l hq)

def extendsOperand : Lexeme → Bool
  | .mark c => c == '.' || c == '[' || c == '('
  | _ => false

def extendsOperation (l : Lexeme) : Bool := extendsOperand l || (binaryOperator? l).isSome

def extendsExpr (l : Lexeme) : Bool := extendsOperation l || l = .sign "=" || l = .sign "?"

def extendsStmt (l : Lexeme) : Bool := l = .word "else" || l = .word "catch" || l = .word "finally"

theorem Ends.operand {ls : List Lexeme} (h : Ends extendsOperation ls) : Ends extendsOperand ls :=
  h.mono fun l hl => by simp [extendsOperation, hl]

theorem Ends.operation {ls : List Lexeme} (h : Ends extendsExpr ls) : Ends extendsOperation ls :=
  h.mono fun l hl => by simp [extendsExpr, hl]

theorem readSuffixes_of_ends (n : Node) {rest : List Lexeme} (h : Ends extendsOperand rest) :
    Gives (readSuffixes · n rest) (n, rest) := by
  refine .always fun depth => ?_
  rw [readSuffixes.eq_def]
  dsimp only
  split
  · cases h
  · cases h
  · cases h
  · rfl

/-! ## What lexemes are read as -/

/-- The lexemes are an operand that accesses and calls can follow. -/
def ReadsOperand (ls : List Lexeme) (n : Node) : Prop :=
  ∀ ⦃rest v⦄, Gives (readSuffixes · n rest) v → Gives (readOperand · (ls ++ rest)) v

def ReadsUnary (ls : List Lexeme) (n : Node) : Prop :=
  ∀ rest, Ends extendsOperand rest → Gives (readUnary · (ls ++ rest)) (n, rest)

def ReadsOperation (ls : List Lexeme) (n : Node) : Prop :=
  ∀ rest, Ends extendsOperation rest → Gives (readOperation · (ls ++ rest)) (n, rest)

def ReadsExpr (ls : List Lexeme) (n : Node) : Prop :=
  ∀ rest, Ends extendsExpr rest → Gives (readExpr · (ls ++ rest)) (n, rest)

def ReadsBlock (ls : List Lexeme) (n : Node) : Prop :=
  ∀ rest, Gives (readBlock · (ls ++ rest)) (n, rest)

def ReadsStmt (ls : List Lexeme) (n : Node) : Prop :=
  ∀ rest, Ends extendsStmt rest → Gives (readStmt · (ls ++ rest)) (n, rest)

variable {ls : List Lexeme} {n : Node}

attribute [local simp] readSuffixes readArgs readPrimary readFields readStmt

theorem ReadsOperand.unary (h : ReadsOperand ls n) (hstart : StartsWith (unaryOperator? · = none) ls) :
    ReadsUnary ls n := by
  intro rest hrest
  obtain ⟨l, tail, rfl, hl⟩ := hstart
  refine .deeper ?_
  filter_upwards [h (readSuffixes_of_ends n hrest)] with depth hread
  rw [List.cons_append] at hread ⊢
  rw [readUnary]
  simp only [of_decide_eq_true hl, hread]

theorem ReadsUnary.operation (h : ReadsUnary ls n) : ReadsOperation ls n := by
  intro rest hrest
  refine .deeper ?_
  filter_upwards [h rest hrest.operand] with depth hread
  rw [readOperation, hread]
  cases rest with
  | nil => rfl
  | cons l rest =>
    have hl : binaryOperator? l = none := by
      simpa [Ends, extendsOperation] using (Bool.or_eq_false_iff.1 hrest).2
    simp [hl]

theorem ReadsOperation.expr (h : ReadsOperation ls n) : ReadsExpr ls n := by
  intro rest hrest
  refine .deeper ?_
  filter_upwards [h rest hrest.operation] with depth hread
  rw [readExpr, hread]
  simp only [Option.bind_eq_bind, Option.bind_some]
  split
  · cases hrest
  · cases hrest
  · rfl

theorem readsOperand_of_primary (h : ∀ rest, Gives (readPrimary · (ls ++ rest)) (n, rest)) :
    ReadsOperand ls n := by
  intro rest v hv
  refine .deeper ?_
  filter_upwards [h rest, hv] with depth hprimary hsuffixes
  rw [readOperand, hprimary]
  exact hsuffixes

/-- In parentheses, any expression is an operand. -/
theorem ReadsExpr.wrapped (h : ReadsExpr ls n) {wrap : Bool} (hoperand : wrap = false → ReadsOperand ls n) :
    ReadsOperand (wrapped wrap ls) n := by
  cases wrap with
  | false => exact hoperand rfl
  | true =>
    refine readsOperand_of_primary fun rest => .deeper ?_
    filter_upwards [h (.mark ')' :: rest) rfl] with depth hinner
    have hopen : Lexeme.wrapped true ls ++ rest = .mark '(' :: (ls ++ .mark ')' :: rest) := by
      simp [Lexeme.wrapped]
    rw [hopen, readPrimary]
    simp [hinner, eat]

/-! ## Operators -/

theorem unaryOperator?_symbol (op : UnaryOperator) : unaryOperator? (symbol op.symbol) = some op := by
  cases op <;> rfl

theorem binaryOperator?_symbol (op : BinaryOperator) : binaryOperator? (symbol op.symbol) = some op := by
  cases op <;> rfl

theorem extendsOperand_symbol (op : BinaryOperator) : extendsOperand (symbol op.symbol) = false := by
  cases op <;> rfl

theorem unaryOperator?_of_isOperand {l : Lexeme} (h : l.isOperand = true) : unaryOperator? l = none := by
  cases l with
  | word w =>
    simp only [isOperand, Bool.not_eq_true', List.contains_eq_mem, decide_eq_false_iff_not] at h
    have htypeof : w ≠ "typeof" := by
      rintro rfl
      exact h (by decide)
    have hvoid : w ≠ "void" := by
      rintro rfl
      exact h (by decide)
    simp [unaryOperator?, htypeof, hvoid]
  | sign s => cases h
  | text s => rfl
  | mark c => rfl

theorem ReadsOperand.unary_of_starts (h : ReadsOperand ls n) (hstart : StartsWith isOperand ls) :
    ReadsUnary ls n := by
  obtain ⟨l, tail, rfl, hl⟩ := hstart
  exact h.unary ⟨l, tail, rfl, decide_eq_true (unaryOperator?_of_isOperand hl)⟩

theorem ReadsExpr.parenthesised (h : ReadsExpr ls n) : ReadsUnary (Lexeme.wrapped true ls) n := by
  have hoperand : ReadsOperand (Lexeme.wrapped true ls) n := h.wrapped nofun
  exact hoperand.unary_of_starts ⟨.mark '(', _, rfl, rfl⟩

variable {l r c t o : Node} {ls₁ ls₂ ls₃ : List Lexeme}

theorem readsUnary_unary (op : UnaryOperator) (h : ReadsOperand ls n) :
    ReadsUnary (symbol op.symbol :: ls) (.unary op n) := by
  intro rest hrest
  refine .deeper ?_
  filter_upwards [h (readSuffixes_of_ends n hrest)] with depth hread
  rw [List.cons_append, readUnary]
  simp [unaryOperator?_symbol, hread]

theorem readsOperation_binary (op : BinaryOperator) (hl : ReadsUnary ls₁ l) (hr : ReadsUnary ls₂ r) :
    ReadsOperation (ls₁ ++ symbol op.symbol :: ls₂) (.binary op l r) := by
  intro rest hrest
  refine .deeper ?_
  filter_upwards [hl (symbol op.symbol :: (ls₂ ++ rest)) (extendsOperand_symbol op),
    hr rest hrest.operand] with depth hleft hright
  rw [List.append_assoc, List.cons_append, readOperation, hleft]
  simp [binaryOperator?_symbol, hright]

theorem readsExpr_ternary (hc : ReadsOperation ls₁ c) (ht : ReadsOperation ls₂ t)
    (ho : ReadsOperation ls₃ o) :
    ReadsExpr (ls₁ ++ .sign "?" :: (ls₂ ++ .sign ":" :: ls₃)) (.ternary c t o) := by
  intro rest hrest
  refine .deeper ?_
  filter_upwards [hc (.sign "?" :: (ls₂ ++ .sign ":" :: (ls₃ ++ rest))) rfl,
    ht (.sign ":" :: (ls₃ ++ rest)) rfl, ho rest hrest.operation] with depth htest htrue helse
  simp only [List.append_assoc, List.cons_append]
  rw [readExpr, htest]
  simp [htrue, eat, helse]

theorem readsExpr_assign (ht : ReadsOperation ls₁ t) (hv : ReadsExpr ls₂ n) :
    ReadsExpr (ls₁ ++ .sign "=" :: ls₂) (.assign t n) := by
  intro rest hrest
  refine .deeper ?_
  filter_upwards [ht (.sign "=" :: (ls₂ ++ rest)) rfl, hv rest hrest] with depth htarget hvalue
  rw [List.append_assoc, List.cons_append, readExpr, htarget]
  simp [hvalue]

/-! ## Accesses and calls -/

theorem readsOperand_dot (ho : ReadsOperand ls o) (name : String) :
    ReadsOperand (ls ++ [.mark '.', .word name]) (.property o (.identifier name)) := by
  intro rest v hv
  rw [List.append_assoc]
  refine ho (.deeper ?_)
  filter_upwards [hv] with depth hv
  rw [List.cons_append, List.singleton_append, readSuffixes, hv]

theorem readsOperand_index (ho : ReadsOperand ls₁ o) (hk : ReadsExpr ls₂ n) :
    ReadsOperand (ls₁ ++ .mark '[' :: (ls₂ ++ [.mark ']'])) (.property o n) := by
  intro rest v hv
  simp only [List.append_assoc, List.cons_append, List.nil_append]
  refine ho (.deeper ?_)
  filter_upwards [hk (.mark ']' :: rest) rfl, hv] with depth hkey hv
  rw [readSuffixes]
  simp [hkey, eat, hv]

/-- What stands between the parentheses is read as the arguments. -/
def ReadsArgs (ls : List Lexeme) (as : List Node) : Prop :=
  ∀ rest, Gives (readArgs · (ls ++ .mark ')' :: rest)) (as, rest)

theorem readsOperand_call {as : List Node} (hc : ReadsOperand ls₁ c) (has : ReadsArgs ls₂ as) :
    ReadsOperand (ls₁ ++ .mark '(' :: (ls₂ ++ [.mark ')'])) (.call c as) := by
  intro rest v hv
  simp only [List.append_assoc, List.cons_append, List.nil_append]
  refine hc (.deeper ?_)
  filter_upwards [has rest, hv] with depth hargs hv
  rw [readSuffixes]
  simp [hargs, hv]

/-! ## Primary expressions -/

theorem readsOperand_word {w : String} (h : w ∉ keywords) : ReadsOperand [.word w] (atom w) := by
  refine readsOperand_of_primary fun rest => .always fun depth => ?_
  rw [List.singleton_append, readPrimary]
  · rfl
  · rintro rfl
    exact h (by decide)
  · rintro rfl
    exact h (by decide)

theorem readsOperand_string (s : String) : ReadsOperand [literal s] (.string s) := by
  refine readsOperand_of_primary fun rest => .always fun depth => ?_
  rw [List.singleton_append, literal, readPrimary]
  simp [Quoted.decode_encode]

theorem readsOperand_new {as : List Node} (hc : ∀ rest, readPath (ls₁ ++ rest) = some (readDots c rest))
    (has : ReadsArgs ls₂ as) :
    ReadsOperand (.word "new" :: (ls₁ ++ .mark '(' :: (ls₂ ++ [.mark ')']))) (.new c as) := by
  refine readsOperand_of_primary fun rest => .deeper ?_
  have hpath := hc (.mark '(' :: (ls₂ ++ .mark ')' :: rest))
  filter_upwards [has rest] with depth hargs
  simp only [List.append_assoc, List.cons_append, List.nil_append]
  rw [readPrimary, hpath]
  simp [readDots, eat, hargs]

theorem readsOperand_function {ps : List Node} (hps : ReadsArgs ls₁ ps) (hb : ReadsBlock ls₂ n) :
    ReadsOperand (.word "function" :: .mark '(' :: (ls₁ ++ .mark ')' :: ls₂)) (.function ps n) := by
  refine readsOperand_of_primary fun rest => .deeper ?_
  filter_upwards [hps (ls₂ ++ rest), hb rest] with depth hparams hbody
  simp only [List.append_assoc, List.cons_append]
  rw [readPrimary]
  simp [eat, hparams, hbody]

theorem readsOperand_object {fs : List Field}
    (h : ∀ rest, Gives (readFields · (ls ++ .mark '\x7d' :: rest)) (fs, rest)) :
    ReadsOperand (.mark '\x7b' :: (ls ++ [.mark '\x7d'])) (.object fs) := by
  refine readsOperand_of_primary fun rest => .deeper ?_
  filter_upwards [h rest] with depth hfields
  simp only [List.append_assoc, List.cons_append, List.nil_append]
  rw [readPrimary]
  simp [hfields]

/-! ## Lists -/

/-- Whether an expression can start with the lexeme, if it is no object. -/
def startsOperation (l : Lexeme) : Bool := l.isOperand || (unaryOperator? l).isSome

/-- Whether an expression can start with the lexeme. -/
def startsExpr (l : Lexeme) : Bool := startsOperation l || l = .mark '\x7b'

/-- Whether a statement can start with the lexeme. -/
def startsStmt (l : Lexeme) : Bool := !extendsStmt l && l != .mark '\x7d'

theorem startsStmt_of_startsOperation {l : Lexeme} (h : startsOperation l = true) :
    startsStmt l = true := by
  by_contra hstmt
  have hcases : l = .word "else" ∨ l = .word "catch" ∨ l = .word "finally" ∨ l = .mark '\x7d' := by
    simpa [startsStmt, extendsStmt, or_assoc, imp_iff_not_or] using hstmt
  rcases hcases with rfl | rfl | rfl | rfl <;> cases h

/-- An expression that its lexemes are read as. -/
structure ReadsBack (n : Node) : Prop where
  starts : StartsWith startsExpr n.lexemes
  reads : ReadsExpr n.lexemes n

theorem separated_cons_cons (ls ls' : List Lexeme) (lss : List (List Lexeme)) :
    separated (ls :: ls' :: lss) = ls ++ .mark ',' :: separated (ls' :: lss) := by
  simp [separated]

/-- One more argument, unless there is none. -/
theorem readArgs_expr {rest rest' : List Lexeme} {a : Node} {as : List Node}
    (hstart : StartsWith startsExpr ls) (ha : Gives (readExpr · ls) (a, rest))
    (has : Gives (readArgs · rest) (as, rest')) : Gives (readArgs · ls) (a :: as, rest') := by
  refine .deeper ?_
  filter_upwards [ha, has] with depth ha has
  rw [readArgs.eq_def]
  dsimp only
  split
  · cases hstart.head
  · cases hstart.head
  · simp [ha, has]

theorem readArgs_nil (rest : List Lexeme) : Gives (readArgs · (.mark ')' :: rest)) ([], rest) :=
  .always fun _ => by rw [readArgs]; rfl

theorem readsArgs {as : List Node} (h : ∀ a ∈ as, ReadsBack a) :
    ReadsArgs (separated (allLexemes as)) as := by
  induction as with
  | nil => exact readArgs_nil
  | cons a as ih =>
    rw [List.forall_mem_cons] at h
    intro rest
    cases as with
    | nil =>
      have hread := h.1.reads (.mark ')' :: rest) rfl
      simpa [allLexemes, separated] using readArgs_expr (h.1.starts.append _) hread (readArgs_nil rest)
    | cons b bs =>
      have hmore : Gives (readArgs · (.mark ',' :: (separated (allLexemes (b :: bs)) ++ .mark ')' :: rest)))
          (b :: bs, rest) := by
        refine .deeper ?_
        filter_upwards [ih h.2 rest] with depth hrest
        rw [readArgs, hrest]
      have hread := h.1.reads (.mark ',' :: (separated (allLexemes (b :: bs)) ++ .mark ')' :: rest)) rfl
      rw [allLexemes, allLexemes, separated_cons_cons, List.append_assoc, List.cons_append]
      exact readArgs_expr (h.1.starts.append _) hread hmore

/-- One more field. -/
theorem readFields_field {rest rest' : List Lexeme} {key : String} {v : Node} {fs : List Field}
    (hv : Gives (readExpr · ls) (v, rest)) (hfs : Gives (readFields · rest) (fs, rest')) :
    Gives (readFields · (literal key :: .sign ":" :: ls)) (⟨key, v⟩ :: fs, rest') := by
  refine .deeper ?_
  filter_upwards [hv, hfs] with depth hv hfs
  rw [literal, readFields]
  simp [Quoted.decode_encode, eat, hv, hfs]

theorem readFields_nil (rest : List Lexeme) : Gives (readFields · (.mark '\x7d' :: rest)) ([], rest) :=
  .always fun _ => by rw [readFields]; rfl

theorem readFields_fields {fs : List Field} (h : ∀ f ∈ fs, ReadsExpr f.value.lexemes f.value)
    (rest : List Lexeme) :
    Gives (readFields · (separated (fieldLexemes fs) ++ .mark '\x7d' :: rest)) (fs, rest) := by
  induction fs with
  | nil => exact readFields_nil rest
  | cons f fs ih =>
    obtain ⟨key, v⟩ := f
    rw [List.forall_mem_cons] at h
    cases fs with
    | nil =>
      have hread := h.1 (.mark '\x7d' :: rest) rfl
      simpa [fieldLexemes, separated] using readFields_field hread (readFields_nil rest)
    | cons g gs =>
      have hmore : Gives (readFields · (.mark ',' :: (separated (fieldLexemes (g :: gs)) ++
          .mark '\x7d' :: rest))) (g :: gs, rest) := by
        refine .deeper ?_
        filter_upwards [ih h.2] with depth hrest
        rw [readFields, hrest]
      have hread := h.1 (.mark ',' :: (separated (fieldLexemes (g :: gs)) ++ .mark '\x7d' :: rest)) rfl
      obtain ⟨key', v'⟩ := g
      rw [fieldLexemes, fieldLexemes, separated_cons_cons, List.append_assoc, List.cons_append]
      exact readFields_field hread hmore

/-- One more statement, unless there is none. -/
theorem readStmts_stmt {rest rest' : List Lexeme} {s : Node} {ss : List Node}
    (hstart : StartsWith startsStmt ls) (hs : Gives (readStmt · ls) (s, rest))
    (hss : Gives (readStmts · rest) (ss, rest')) : Gives (readStmts · ls) (s :: ss, rest') := by
  refine .deeper ?_
  filter_upwards [hs, hss] with depth hs hss
  rw [readStmts.eq_def]
  dsimp only
  split
  · cases hstart.head
  · simp [hs, hss]

theorem readStmts_stmts {ss : List Node}
    (h : ∀ s ∈ ss, StartsWith startsStmt s.lexemes ∧ ReadsStmt s.lexemes s) (rest : List Lexeme) :
    Ends extendsStmt ((allLexemes ss).flatten ++ .mark '\x7d' :: rest) ∧
      Gives (readStmts · ((allLexemes ss).flatten ++ .mark '\x7d' :: rest)) (ss, rest) := by
  induction ss with
  | nil => exact ⟨rfl, .always fun _ => rfl⟩
  | cons s ss ih =>
    rw [List.forall_mem_cons] at h
    obtain ⟨⟨hstart, hread⟩, hss⟩ := h
    obtain ⟨hends, hmore⟩ := ih hss
    rw [allLexemes, List.flatten_cons, List.append_assoc]
    refine ⟨?_, readStmts_stmt (hstart.append _) (hread _ hends) hmore⟩
    obtain ⟨l, tail, heq, hl⟩ := hstart
    rw [heq]
    simp only [startsStmt, Bool.and_eq_true, Bool.not_eq_true'] at hl
    exact hl.1

theorem readsBlock {ss : List Node}
    (h : ∀ s ∈ ss, StartsWith startsStmt s.lexemes ∧ ReadsStmt s.lexemes s) :
    ReadsBlock (Node.block ss).lexemes (.block ss) := by
  intro rest
  refine .deeper ?_
  filter_upwards [(readStmts_stmts h rest).2] with depth hstmts
  rw [Node.lexemes, List.cons_append, List.append_assoc, readBlock]
  simp [eat, hstmts]

/-- An expression, if there is one, and a mark that does not belong to it. -/
theorem readUntil_option {c : Char} (hstarts : startsExpr (.mark c) = false)
    (hextends : extendsExpr (.mark c) = false) {v : Option Node} (h : ∀ n ∈ v, ReadsBack n) (rest : List Lexeme) :
    Gives (readUntil c · ((optionLexemes v).getD [] ++ .mark c :: rest)) (v, rest) := by
  cases v with
  | none =>
    refine .always fun depth => ?_
    rw [readUntil]
    simp [optionLexemes, eat]
  | some n =>
    obtain ⟨hstart, hreads⟩ := h n rfl
    have hnot : eat (.mark c) (n.lexemes ++ .mark c :: rest) = none := by
      obtain ⟨l, tail, heq, hl⟩ := hstart
      have hne : l ≠ .mark c := by
        rintro rfl
        rw [hl] at hstarts
        cases hstarts
      simp [heq, eat, hne]
    refine .deeper ?_
    filter_upwards [hreads (.mark c :: rest) hextends] with depth hread
    rw [readUntil]
    simp only [optionLexemes, Option.getD_some, hnot, hread]
    simp [eat]

/-! ## Statements -/

theorem readHandler_none {ls : List Lexeme} (h : Ends (· = .word "catch") ls) :
    Gives (readHandler · ls) (none, ls) := by
  refine .always fun depth => ?_
  rw [readHandler.eq_def]
  dsimp only
  split
  · cases h
  · rfl

theorem readHandler_handler {h : Option Handler} (hread : ∀ x ∈ h, ReadsBlock x.body.lexemes x.body)
    {rest : List Lexeme} (hrest : Ends (· = .word "catch") rest) :
    Gives (readHandler · (handlerLexemes h ++ rest)) (h, rest) := by
  cases h with
  | none => exact readHandler_none hrest
  | some x =>
    obtain ⟨binding, body⟩ := x
    refine .deeper ?_
    filter_upwards [hread _ rfl rest] with depth hbody
    simp only [handlerLexemes, List.cons_append]
    rw [readHandler, hbody]
    rfl

theorem readCleanup_option {f : Option Node} (hread : ∀ n ∈ f, ReadsBlock n.lexemes n)
    {rest : List Lexeme} (hrest : Ends extendsStmt rest) :
    Gives (readCleanup · (led (.word "finally") (optionLexemes f) ++ rest)) (f, rest) := by
  cases f with
  | none =>
    refine .always fun depth => ?_
    show readCleanup (depth + 1) rest = _
    rw [readCleanup.eq_def]
    dsimp only
    split
    · cases hrest
    · rfl
  | some n =>
    refine .deeper ?_
    filter_upwards [hread n rfl rest] with depth hbody
    show readCleanup (depth + 1) (.word "finally" :: (n.lexemes ++ rest)) = _
    rw [readCleanup, hbody]
    rfl

theorem readsStmt_expression (hstart : StartsWith startsOperation ls) (h : ReadsExpr ls n) :
    ReadsStmt (ls ++ [.mark ';']) (.statement n) := by
  intro rest hrest
  have hstart := hstart.append (.mark ';' :: rest)
  refine .deeper ?_
  filter_upwards [h (.mark ';' :: rest) rfl] with depth hread
  rw [List.append_assoc, List.singleton_append, readStmt.eq_def]
  dsimp only
  -- an expression starts with no word that leads to another kind of statement
  split
  case h_12 => simp [hread, eat]
  all_goals
    next heq =>
      rw [heq] at hstart
      cases hstart.head

theorem readsStmt_block {ss : List Node} (h : ReadsBlock (Node.block ss).lexemes n) :
    ReadsStmt (Node.block ss).lexemes n := by
  intro rest _
  refine .deeper ?_
  filter_upwards [h rest] with depth hread
  rw [← hread, Node.lexemes, List.cons_append, readStmt]

theorem readsStmt_declare (name : String) {v : Option Node} (h : ∀ n ∈ v, ReadsBack n) :
    ReadsStmt (Node.declare name v).lexemes (.declare name v) := by
  intro rest _
  cases v with
  | none =>
    refine .always fun depth => ?_
    simp only [Node.lexemes, led, optionLexemes, List.cons_append, List.nil_append]
    rw [readStmt]
    · simp [eat]
    · simp
  | some n =>
    refine .deeper ?_
    filter_upwards [readUntil_option (c := ';') rfl rfl h rest] with depth hread
    simp only [optionLexemes, Option.getD_some] at hread
    simp only [Node.lexemes, led, optionLexemes, List.cons_append, List.append_assoc, List.nil_append]
    rw [readStmt, hread]
    rfl

theorem readsStmt_ret {v : Option Node} (h : ∀ n ∈ v, ReadsBack n) :
    ReadsStmt (Node.ret v).lexemes (.ret v) := by
  intro rest _
  refine .deeper ?_
  filter_upwards [readUntil_option (c := ';') rfl rfl h rest] with depth hread
  simp only [Node.lexemes, List.cons_append, List.append_assoc, List.nil_append]
  rw [readStmt, hread]
  rfl

theorem readsStmt_throwValue (h : ReadsExpr n.lexemes n) :
    ReadsStmt (Node.throwValue n).lexemes (.throwValue n) := by
  intro rest _
  refine .deeper ?_
  filter_upwards [h (.mark ';' :: rest) rfl] with depth hread
  simp only [Node.lexemes, List.cons_append, List.append_assoc, List.nil_append]
  rw [readStmt, hread]
  simp [eat]

theorem readsStmt_breakLoop : ReadsStmt Node.breakLoop.lexemes .breakLoop := by
  refine fun rest _ => .always fun depth => ?_
  simp [eat]

theorem readsStmt_continueLoop : ReadsStmt Node.continueLoop.lexemes .continueLoop := by
  refine fun rest _ => .always fun depth => ?_
  simp [eat]

variable {b : Node}

theorem readsStmt_whileLoop (hc : ReadsExpr c.lexemes c) (hb : ReadsBlock b.lexemes b) :
    ReadsStmt (Node.whileLoop c b).lexemes (.whileLoop c b) := by
  intro rest _
  refine .deeper ?_
  filter_upwards [hc (.mark ')' :: (b.lexemes ++ rest)) rfl, hb rest] with depth htest hbody
  simp [eat, htest, hbody]

theorem readsStmt_branch (hc : ReadsExpr c.lexemes c) (hb : ReadsBlock b.lexemes b) {o : Option Node}
    (ho : ∀ n ∈ o, ReadsStmt n.lexemes n) : ReadsStmt (Node.branch c b o).lexemes (.branch c b o) := by
  intro rest hrest
  have htest := hc (.mark ')' :: (b.lexemes ++ (led (.word "else") (optionLexemes o) ++ rest))) rfl
  have hbody := hb (led (.word "else") (optionLexemes o) ++ rest)
  cases o with
  | none =>
    refine .deeper ?_
    filter_upwards [htest, hbody] with depth htest hbody
    simp only [Node.lexemes, List.cons_append, List.append_assoc]
    rw [readStmt]
    simp only [eat, htest, hbody, Option.bind_eq_bind, Option.bind_some, if_true]
    simp only [led, optionLexemes, List.nil_append]
    split
    · cases hrest
    · rfl
  | some n =>
    refine .deeper ?_
    filter_upwards [htest, hbody, ho n rfl rest hrest] with depth htest hbody helse
    simp only [Node.lexemes, List.cons_append, List.append_assoc]
    rw [readStmt]
    simp only [eat, htest, hbody, Option.bind_eq_bind, Option.bind_some, if_true]
    simp [led, optionLexemes, helse]

theorem readsStmt_forLoop {i c s : Option Node} (hi : ∀ n ∈ i, ReadsBack n) (hc : ∀ n ∈ c, ReadsBack n)
    (hs : ∀ n ∈ s, ReadsBack n) (hb : ReadsBlock b.lexemes b) :
    ReadsStmt (Node.forLoop i c s b).lexemes (.forLoop i c s b) := by
  intro rest _
  have hstep := readUntil_option (c := ')') rfl rfl hs (b.lexemes ++ rest)
  have htest := readUntil_option (c := ';') rfl rfl hc
    ((optionLexemes s).getD [] ++ .mark ')' :: (b.lexemes ++ rest))
  have hinit := readUntil_option (c := ';') rfl rfl hi
    ((optionLexemes c).getD [] ++ .mark ';' ::
      ((optionLexemes s).getD [] ++ .mark ')' :: (b.lexemes ++ rest)))
  refine .deeper ?_
  filter_upwards [hinit, htest, hstep, hb rest] with depth hinit htest hstep hbody
  simp [eat, hinit, htest, hstep, hbody]

theorem readsStmt_tryCatch (hb : ReadsBlock b.lexemes b) {h : Option Handler}
    (hh : ∀ x ∈ h, ReadsBlock x.body.lexemes x.body) {f : Option Node}
    (hf : ∀ n ∈ f, ReadsBlock n.lexemes n) :
    ReadsStmt (Node.tryCatch b h f).lexemes (.tryCatch b h f) := by
  intro rest hrest
  have hcatch : Ends (· = .word "catch") (led (.word "finally") (optionLexemes f) ++ rest) := by
    cases f with
    | none => exact hrest.mono fun l hl => by simp_all [extendsStmt]
    | some n => rfl
  refine .deeper ?_
  filter_upwards [hb _, readHandler_handler hh hcatch, readCleanup_option hf hrest]
    with depth hbody hhandler hcleanup
  simp only [Node.lexemes, List.cons_append, List.append_assoc]
  rw [readStmt, hbody]
  simp [hhandler, hcleanup]

/-! ## Paths, numbers and names -/

theorem wrapsAsObject_of_isDotted (h : n.isDotted = true) : n.wrapsAsObject = false := by
  cases n with
  | identifier | property => rfl
  | _ => cases h

theorem wrapsAsClass_of_isDotted (h : n.isDotted = true) : n.wrapsAsClass = false := by
  cases n with
  | identifier | property => rfl
  | _ => cases h

theorem readPath_lexemes (h : n.isDotted = true) (rest : List Lexeme) :
    readPath (n.lexemes ++ rest) = some (readDots n rest) := by
  fun_induction Node.isDotted n generalizing rest with
  | case1 name => rfl
  | case2 o name ih =>
    have hobject : wrapped o.wrapsAsObject o.lexemes = o.lexemes := by
      rw [wrapsAsObject_of_isDotted h]
      rfl
    have hlexemes : (Node.property o (.identifier name)).lexemes =
        o.lexemes ++ [.mark '.', .word name] := by
      rw [Node.lexemes, hobject]
      rfl
    rw [hlexemes, List.append_assoc, ih h]
    rfl
  | case3 => cases h

theorem isDigit_of_isAlpha {c : Char} (h : c.isAlpha = true) : c.isDigit = false := by
  have hletter : 65 ≤ c.val.toNat := by
    rcases Bool.or_eq_true_iff.1 h with hupper | hlower
    · exact UInt32.le_iff_toNat_le.1 (of_decide_eq_true hupper).1
    · have hfirst : 97 ≤ c.val.toNat :=
        UInt32.le_iff_toNat_le.1 (of_decide_eq_true (Bool.and_eq_true_iff.1 hlower).1)
      omega
  refine Bool.eq_false_iff.2 fun hdigit => ?_
  have hlast : c.val.toNat ≤ 57 :=
    UInt32.le_iff_toNat_le.1 (of_decide_eq_true (Bool.and_eq_true_iff.1 hdigit).2)
  omega

theorem atom_identifier {name : String} (h : isIdentifierName name = true) :
    atom name = .identifier name := by
  have hdigit : ¬name.toList.head?.any Char.isDigit = true := by
    unfold isIdentifierName at h
    cases hcs : name.toList with
    | nil => simp
    | cons c cs =>
      simp only [hcs, isWordStart, Bool.and_eq_true, Bool.or_eq_true, beq_iff_eq] at h
      have hc : c.isDigit = false := by
        rcases h.1 with (hc | rfl) | rfl
        · exact isDigit_of_isAlpha hc
        · rfl
        · rfl
      simp [hc]
  rw [atom, if_neg hdigit]

theorem atom_int (k : Nat) : atom (toString (k : Int)) = .int k := by
  have hdigit : (toString (k : Int)).toList.head?.any Char.isDigit = true := by
    cases hcs : (toString (k : Int)).toList with
    | nil => exact absurd hcs (isWord_toString k).1
    | cons c cs =>
      have hmem : c ∈ (toString (k : Int)).toList := hcs ▸ List.mem_cons_self
      simpa using isDigit_of_mem_toString hmem
  rw [atom, if_pos hdigit, toList_toString_natCast, Nat.ofDigitChars_ten_toDigits]

end Lexeme

end ClassScript.Script
