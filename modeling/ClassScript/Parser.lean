/-!
# Parsers that end

A parser reads a list of tokens and leaves a suffix of it; a consuming parser leaves a strictly
shorter one. Both carry a bound: a parser of level `n` runs on fewer than `n` tokens. Whatever is
read behind a first token has one token less to go, so it may use rules of the level below, and a
recursive grammar is a family of rules by recursion on the level. Level zero has no inputs.

A reply holds the suffix as a proof, so that no parser can lengthen its input, and no loop over a
consuming parser can stand still.
-/

namespace ClassScript

/-- A value read from the front of `ts`, and what is left. -/
structure Reply {τ : Type} (ts : List τ) (α : Type) where
  value : α
  rest : List τ
  suffix : rest <:+ ts

/-- A reply that took at least one token. -/
structure Progress {τ : Type} (ts : List τ) (α : Type) extends Reply ts α where
  shorter : rest.length < ts.length

/-- Reads fewer than `n` tokens of type `τ`, or fails with an `ε`. -/
structure Parser (ε τ : Type) (n : Nat) (α : Type) where
  run : (ts : List τ) → ts.length < n → Except ε (Reply ts α)

/-- A parser that takes at least one token when it succeeds. -/
structure Consuming (ε τ : Type) (n : Nat) (α : Type) where
  run : (ts : List τ) → ts.length < n → Except ε (Progress ts α)

namespace Parser

variable {ε τ : Type} {n : Nat} {α β : Type}

protected def pure (a : α) : Parser ε τ n α := ⟨fun ts _ => .ok ⟨a, ts, List.suffix_refl ts⟩⟩

protected def bind (p : Parser ε τ n α) (f : α → Parser ε τ n β) : Parser ε τ n β :=
  ⟨fun ts h => match p.run ts h with
    | .error e => .error e
    | .ok r => match (f r.value).run r.rest (Nat.lt_of_le_of_lt r.suffix.length_le h) with
      | .error e => .error e
      | .ok s => .ok ⟨s.value, s.rest, s.suffix.trans r.suffix⟩⟩

instance : Monad (Parser ε τ n) where
  pure := Parser.pure
  bind := Parser.bind

/-- Fails. -/
def fail (e : ε) : Parser ε τ n α := ⟨fun _ _ => .error e⟩

/-- The tokens that are left; takes none. -/
def ahead : Parser ε τ n (List τ) := ⟨fun ts _ => .ok ⟨ts, ts, List.suffix_refl ts⟩⟩

/-- Takes the next token for its value, if it has one. -/
def take? (value : τ → Option α) : Parser ε τ n (Option α) :=
  ⟨fun ts _ => match ts with
    | t :: rest => match value t with
      | some a => .ok ⟨some a, rest, List.suffix_cons t rest⟩
      | none => .ok ⟨none, t :: rest, List.suffix_refl _⟩
    | [] => .ok ⟨none, [], List.suffix_refl _⟩⟩

/-- Takes the next token if it passes the test, and says whether it did. -/
def accept (test : τ → Bool) : Parser ε τ n Bool := do
  return (← take? fun t => if test t then some () else none).isSome

/-- Takes the longest run of tokens that pass the test. -/
def takeWhile (test : τ → Bool) : Parser ε τ n (List τ) :=
  ⟨fun ts _ => .ok ⟨ts.takeWhile test, ts.dropWhile test, List.dropWhile_suffix test⟩⟩

/-- A consuming parser behind any parser consumes. -/
def before (p : Parser ε τ n α) (f : α → Consuming ε τ n β) : Consuming ε τ n β :=
  ⟨fun ts h => match p.run ts h with
    | .error e => .error e
    | .ok r => match (f r.value).run r.rest (Nat.lt_of_le_of_lt r.suffix.length_le h) with
      | .error e => .error e
      | .ok s => .ok
        { value := s.value
          rest := s.rest
          suffix := s.suffix.trans r.suffix
          shorter := Nat.lt_of_lt_of_le s.shorter r.suffix.length_le }⟩

end Parser

namespace Consuming

variable {ε τ : Type} {n : Nat} {α β : Type}

/-- A consuming parser as a parser. -/
def parser (p : Consuming ε τ n α) : Parser ε τ n α :=
  ⟨fun ts h => match p.run ts h with
    | .error e => .error e
    | .ok r => .ok r.toReply⟩

instance : MonadLift (Consuming ε τ n) (Parser ε τ n) := ⟨parser⟩

/-- There is nothing to read at level zero. -/
def never : Consuming ε τ 0 α := ⟨fun _ h => absurd h (Nat.not_lt_zero _)⟩

/-- Fails. -/
def fail (e : ε) : Consuming ε τ n α := ⟨fun _ _ => .error e⟩

/-- Chooses by the tokens ahead. -/
def look (f : List τ → Consuming ε τ n α) : Consuming ε τ n α := ⟨fun ts h => (f ts).run ts h⟩

/-- Takes one token and goes on a level below; `f` also sees the tokens that follow. Fails with
`atEnd` if there is no token. -/
def first (atEnd : ε) (f : τ → List τ → Parser ε τ n α) : Consuming ε τ (n + 1) α :=
  ⟨fun ts h => match ts with
    | [] => .error atEnd
    | t :: rest => match (f t rest).run rest (Nat.lt_of_succ_lt_succ h) with
      | .error e => .error e
      | .ok r => .ok
        { value := r.value
          rest := r.rest
          suffix := r.suffix.trans (List.suffix_cons t rest)
          shorter := Nat.lt_succ_of_le r.suffix.length_le }⟩

/-- If `f` offers a parser for the next token and those behind it, takes that token and runs the
parser a level below; otherwise `p` reads all. -/
def firstOr (f : τ → List τ → Option (Parser ε τ n α)) (p : Consuming ε τ (n + 1) α) :
    Consuming ε τ (n + 1) α :=
  ⟨fun ts h => match ts with
    | [] => p.run [] h
    | t :: rest => match f t rest with
      | none => p.run (t :: rest) h
      | some q => match q.run rest (Nat.lt_of_succ_lt_succ h) with
        | .error e => .error e
        | .ok r => .ok
          { value := r.value
            rest := r.rest
            suffix := r.suffix.trans (List.suffix_cons t rest)
            shorter := Nat.lt_succ_of_le r.suffix.length_le }⟩

/-- Takes the next token for its value, and fails by `refuse` on the tokens ahead if it has
none. -/
def take (refuse : List τ → ε) (value : τ → Option α) : Consuming ε τ n α :=
  ⟨fun ts _ => match ts with
    | [] => .error (refuse [])
    | t :: rest => match value t with
      | none => .error (refuse (t :: rest))
      | some a => .ok
        { value := a
          rest := rest
          suffix := List.suffix_cons t rest
          shorter := Nat.lt_succ_self _ }⟩

/-- Goes on a level below behind a consuming parser. -/
def andThen (p : Consuming ε τ (n + 1) α) (f : α → Parser ε τ n β) : Consuming ε τ (n + 1) β :=
  ⟨fun ts h => match p.run ts h with
    | .error e => .error e
    | .ok r => match (f r.value).run r.rest (Nat.lt_of_lt_of_le r.shorter (Nat.le_of_lt_succ h)) with
      | .error e => .error e
      | .ok s => .ok
        { value := s.value
          rest := s.rest
          suffix := s.suffix.trans r.suffix
          shorter := Nat.lt_of_le_of_lt s.suffix.length_le r.shorter }⟩

/-- Goes on at the same level behind a consuming parser. -/
def bind (p : Consuming ε τ n α) (f : α → Parser ε τ n β) : Consuming ε τ n β :=
  ⟨fun ts h => match p.run ts h with
    | .error e => .error e
    | .ok r => match (f r.value).run r.rest (Nat.lt_trans r.shorter h) with
      | .error e => .error e
      | .ok s => .ok
        { value := s.value
          rest := s.rest
          suffix := s.suffix.trans r.suffix
          shorter := Nat.lt_of_le_of_lt s.suffix.length_le r.shorter }⟩

def map (f : α → β) (p : Consuming ε τ n α) : Consuming ε τ n β := p.bind fun a => pure (f a)

end Consuming

namespace Parser

variable {ε τ : Type} {n : Nat} {α : Type}

/-- As long as `step` offers a parser for the value so far, the next token and those behind it,
takes that token and runs the parser for the next value. -/
def loopFrom (step : α → τ → List τ → Option (Parser ε τ n α)) (a : α) :
    (ts : List τ) → ts.length < n → Except ε (Reply ts α)
  | [], _ => .ok ⟨a, [], List.suffix_refl []⟩
  | t :: rest, h => match step a t rest with
    | none => .ok ⟨a, t :: rest, List.suffix_refl _⟩
    | some p => match p.run rest (Nat.lt_of_succ_lt h) with
      | .error e => .error e
      | .ok r =>
        have := r.suffix.length_le
        match loopFrom step r.value r.rest (Nat.lt_of_le_of_lt this (Nat.lt_of_succ_lt h)) with
        | .error e => .error e
        | .ok s => .ok ⟨s.value, s.rest, (s.suffix.trans r.suffix).trans (List.suffix_cons t rest)⟩
termination_by ts => ts.length
decreasing_by simp only [List.length_cons]; omega

@[inherit_doc loopFrom]
def loop (step : α → τ → List τ → Option (Parser ε τ n α)) (a : α) : Parser ε τ n α :=
  ⟨loopFrom step a⟩

/-- Reads items up to where `stop` holds of the tokens ahead. -/
def manyFrom (stop : List τ → Bool) (item : Consuming ε τ n α) (ts : List τ) (h : ts.length < n) :
    Except ε (Reply ts (List α)) :=
  if stop ts then .ok ⟨[], ts, List.suffix_refl ts⟩
  else match item.run ts h with
    | .error e => .error e
    | .ok r => match manyFrom stop item r.rest (Nat.lt_trans r.shorter h) with
      | .error e => .error e
      | .ok s => .ok ⟨r.value :: s.value, s.rest, s.suffix.trans r.suffix⟩
termination_by ts.length
decreasing_by exact r.shorter

@[inherit_doc manyFrom]
def many (stop : List τ → Bool) (item : Consuming ε τ n α) : Parser ε τ n (List α) :=
  ⟨manyFrom stop item⟩

/-- Reads items, each but the first behind a separator, up to the first that no separator
follows. -/
def separated (separator : τ → Bool) (item : Consuming ε τ n α) : Consuming ε τ n (List α) :=
  item.bind fun a => do
    let more ← loop (fun (acc : List α) t _ =>
      if separator t then some do return (← item.parser) :: acc else none) []
    return a :: more.reverse

/-- Reads items with separators between them, and perhaps behind the last, up to where `stop`
holds or an item that no separator follows. -/
def separatedUntil (stop : List τ → Bool) (separator : τ → Bool) (item : Consuming ε τ n α) :
    Parser ε τ n (List α) := do
  if stop (← ahead) then return []
  let a ← item.parser
  let more ← loop (fun (acc : List α × Bool) t _ =>
    if acc.2 && separator t then some do
      if stop (← ahead) then return (acc.1, false)
      return ((← item.parser) :: acc.1, true)
    else none) ([], true)
  return a :: more.1.reverse

end Parser

end ClassScript
