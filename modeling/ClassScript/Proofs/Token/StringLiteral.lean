import ClassScript.Token.Scan
/-!
# String literals

A text is spelled as a literal by a backslash before each character that means something else between the quotes. The
scanner finds the closing quote by skipping escaped characters, and the decoder goes over the inside again; both agree
on every spelling, so that scanning a literal gives the text and nothing else (`scan_literal`).
-/

namespace ClassScript

namespace Literal

/-! ## Spelling -/

/-- The characters with a backslash before each that is special. -/
def escaped (special : List Char) (cs : List Char) : List Char :=
  cs.flatMap fun c => if c ∈ special then ['\\', c] else [c]

/-- The literal of a text between the given quotes. -/
def spelled (quote : Char) (special : List Char) (s : String) : String :=
  String.ofList (quote :: (escaped special s.toList ++ [quote]))

def singleSpecial : List Char := ['\\', '\'']

def doubleSpecial : List Char := ['\\', '"', '$']

def singleQuoted (s : String) : String := spelled '\'' singleSpecial s

def doubleQuoted (s : String) : String := spelled '"' doubleSpecial s

variable {special : List Char} {c : Char} {cs : List Char}

@[simp] theorem escaped_nil : escaped special [] = [] := rfl

theorem escaped_cons_of_mem (h : c ∈ special) : escaped special (c :: cs) = '\\' :: c :: escaped special cs := by
  simp [escaped, h]

theorem escaped_cons_of_not_mem (h : c ∉ special) : escaped special (c :: cs) = c :: escaped special cs := by
  simp [escaped, h]

/-- Unless it is a backslash, a special character is never in front. -/
theorem head?_escaped_ne (h : c ∈ special) (hc : c ≠ '\\') : (escaped special cs).head? ≠ some c := by
  cases cs with
  | nil => simp
  | cons d cs =>
    by_cases hd : d ∈ special
    · simpa [escaped_cons_of_mem hd] using hc.symm
    · rw [escaped_cons_of_not_mem hd]
      rintro ⟨⟩
      exact hd h

/-! ## Decoding -/

theorem single_escaped (cs : List Char) : single (escaped singleSpecial cs) = cs := by
  induction cs with
  | nil => rfl
  | cons c cs ih =>
    by_cases hc : c ∈ singleSpecial
    · rw [escaped_cons_of_mem hc]
      simp only [singleSpecial, List.mem_cons, List.not_mem_nil, or_false] at hc
      rcases hc with rfl | rfl <;> rw [single, ih]
    · rw [escaped_cons_of_not_mem hc]
      have hc' : c ≠ '\\' := fun heq => hc (heq ▸ .head _)
      rw [single, ih]
      · rintro _ rfl
        exact absurd rfl hc'
      · rintro _ rfl
        exact absurd rfl hc'

theorem escape_of_mem (h : c ∈ doubleSpecial) : escape c = [c] := by
  simp only [doubleSpecial, List.mem_cons, List.not_mem_nil, or_false] at h
  rcases h with rfl | rfl | rfl <;> rfl

theorem double_cons {r : List Char} (hslash : c ≠ '\\') (hc : c ≠ '$') (hr : r.head? ≠ some '$') :
    double (c :: r) = do return c :: (← double r) := by
  rw [double]
  · rw [if_neg fun h => hc h.1, if_neg fun h => hr h.2]
  · rintro rfl
    exact absurd rfl hslash
  · rintro _ _ rfl
    exact absurd rfl hslash

/-- Nothing starts an interpolation, since a dollar sign is never without a backslash. -/
theorem double_escaped (cs : List Char) : double (escaped doubleSpecial cs) = .ok cs := by
  induction cs with
  | nil => rfl
  | cons c cs ih =>
    by_cases hc : c ∈ doubleSpecial
    · rw [escaped_cons_of_mem hc, double, ih, escape_of_mem hc]
      rfl
    · -- not even behind a brace, where the decoder looks one character ahead
      have hdollar : (escaped doubleSpecial cs).head? ≠ some '$' := head?_escaped_ne (by decide) (by decide)
      rw [escaped_cons_of_not_mem hc]
      simp only [doubleSpecial, List.mem_cons, List.not_mem_nil, or_false, not_or] at hc
      rw [double_cons hc.1 hc.2.2 hdollar, ih]
      rfl

end Literal

/-! ## Scanning -/

namespace Rule

open Literal

variable {q : Char} {special : List Char}

/-- The closing quote is the first one without a backslash. -/
theorem toQuote_escaped (hq : q ∈ special) (hslash : '\\' ∈ special) (hne : q ≠ '\\') (cs : List Char) :
    toQuote q (escaped special cs ++ [q]) = (escaped special cs).length + 1 := by
  induction cs with
  | nil =>
    rw [escaped_nil, List.nil_append, toQuote, if_pos rfl]
    · rfl
    · rintro rfl
      exact absurd rfl hne
    · rintro _ _ rfl
      exact absurd rfl hne
  | cons c cs ih =>
    by_cases hc : c ∈ special
    · rw [escaped_cons_of_mem hc, List.cons_append, List.cons_append, toQuote, ih]
      rfl
    · have hcq : c ≠ q := fun heq => hc (heq ▸ hq)
      have hcslash : c ≠ '\\' := fun heq => hc (heq ▸ hslash)
      rw [escaped_cons_of_not_mem hc, List.cons_append, toQuote, if_neg hcq, ih]
      · rfl
      · rintro rfl
        exact absurd rfl hcslash
      · rintro _ _ rfl
        exact absurd rfl hcslash

theorem stringLength_spelled (hq : q ∈ special) (hslash : '\\' ∈ special) (hne : q ≠ '\\') (cs : List Char) :
    stringLength q (q :: (escaped special cs ++ [q])) = (escaped special cs).length + 2 := by
  rw [stringLength, if_pos rfl, toQuote_escaped hq hslash hne]

/-- A rule that alone accepts something has the longest match. -/
theorem longest_eq {r : Rule} {cs : List Char} {n : Nat} (hr : r ∈ all) (hn : r.length cs = n + 1)
    (h : ∀ r' ∈ all, r' ≠ r → r'.length cs = 0) : longest cs = (r, n + 1) := by
  let step (best : Rule × Nat) (r : Rule) := if best.2 < r.length cs then (r, r.length cs) else best
  -- once the rule is met, no other one is longer; until then, nothing is accepted
  have hfound (rules : List Rule) (h : ∀ r' ∈ rules, r' ≠ r → r'.length cs = 0) :
      rules.foldl step (r, n + 1) = (r, n + 1) := by
    induction rules with
    | nil => rfl
    | cons r' rules ih =>
      rw [List.forall_mem_cons] at h
      have hle : ¬n + 1 < r'.length cs := by
        by_cases heq : r' = r
        · simp [heq, hn]
        · simp [h.1 heq]
      rw [List.foldl_cons, show step (r, n + 1) r' = (r, n + 1) from if_neg hle, ih h.2]
  have hfind (rules : List Rule) (h : ∀ r' ∈ rules, r' ≠ r → r'.length cs = 0) (hr : r ∈ rules) :
      rules.foldl step (.blank, 0) = (r, n + 1) := by
    induction rules with
    | nil => cases hr
    | cons r' rules ih =>
      obtain ⟨hr', hrules⟩ := List.forall_mem_cons.1 h
      by_cases heq : r' = r
      · have hstep : step (.blank, 0) r' = (r, n + 1) := by simp [step, heq, hn]
        rw [List.foldl_cons, hstep, hfound rules hrules]
      · have hstep : step (.blank, 0) r' = (.blank, 0) := by simp [step, hr' heq]
        rw [List.foldl_cons, hstep, ih hrules ((List.mem_cons.1 hr).resolve_left (Ne.symm heq))]
  exact hfind all h hr

theorem fixed_eq_zero {text : String} {c : Char} (h : text.toList.head? ≠ some c) (cs : List Char) :
    fixed text (c :: cs) = 0 := by
  unfold fixed
  cases htext : text.toList with
  | nil => simp [String.toList_eq_nil_iff.1 htext]
  | cons d ds =>
    have hd : d ≠ c := fun heq => h (by rw [htext, heq]; rfl)
    simp [hd]

theorem length_punct {c : Char} (h : ∀ s ∈ symbols, s.toList.head? ≠ some c) (cs : List Char) :
    punct.length (c :: cs) = 0 := by
  have hfold (ss : List String) (hss : ∀ s ∈ ss, s.toList.head? ≠ some c) :
      ss.foldl (fun n s => max n (fixed s (c :: cs))) 0 = 0 := by
    induction ss with
    | nil => rfl
    | cons s ss ih =>
      rw [List.forall_mem_cons] at hss
      rw [List.foldl_cons, fixed_eq_zero hss.1, Nat.max_self, ih hss.2]
  exact hfold symbols h

/-- No other rule accepts what begins with a quote. -/
theorem length_single (cs : List Char) : ∀ r ∈ all, r ≠ .singleQuoted → r.length ('\'' :: cs) = 0 := by
  intro r _ hr
  cases r with
  | singleQuoted => exact absurd rfl hr
  | punct => exact length_punct (by decide) cs
  | _ => rfl

@[inherit_doc length_single]
theorem length_double (cs : List Char) : ∀ r ∈ all, r ≠ .doubleQuoted → r.length ('"' :: cs) = 0 := by
  intro r _ hr
  cases r with
  | doubleQuoted => exact absurd rfl hr
  | punct => exact length_punct (by decide) cs
  | _ => rfl

theorem longest_single (cs : List Char) : longest ('\'' :: (escaped singleSpecial cs ++ ['\''])) =
    (.singleQuoted, (escaped singleSpecial cs).length + 2) :=
  have hlength := stringLength_spelled (by decide : '\'' ∈ singleSpecial) (by decide) (by decide) cs
  longest_eq (by decide) hlength (length_single _)

theorem longest_double (cs : List Char) : longest ('"' :: (escaped doubleSpecial cs ++ ['"'])) =
    (.doubleQuoted, (escaped doubleSpecial cs).length + 2) :=
  have hlength := stringLength_spelled (by decide : '"' ∈ doubleSpecial) (by decide) (by decide) cs
  longest_eq (by decide) hlength (length_double _)

end Rule

namespace Token

open Literal

/-- A text that is one lexeme as a whole gives one token. -/
theorem tokensFrom_lexeme {rule : Rule} {c : Char} {rest : List Char} {kind : TokenKind} {pos : Position}
    (hbest : Rule.longest (c :: rest) = (rule, rest.length + 1)) (hrule : rule ≠ .closeTag)
    (hkind : ofLexeme rule c (c :: rest) = .ok (some kind)) :
    tokensFrom pos (c :: rest) = .ok ⟨[⟨kind, pos⟩], pos.after (c :: rest)⟩ := by
  have hnone (pos : Position) : tokensFrom pos [] = .ok ⟨[], pos⟩ := by unfold tokensFrom; rfl
  unfold tokensFrom
  simp only [hbest, Nat.add_sub_cancel, List.take_length, List.drop_length, hkind, hnone]
  rw [if_neg (Nat.succ_ne_zero _), if_neg hrule]
  rfl

/-- Scanning the literal of a text in single or in double quotes gives the text, and nothing behind it. -/
theorem scan_literal (s : String) :
    scan (singleQuoted s) = .ok ⟨[⟨.str s, .start⟩], Position.start.after (singleQuoted s).toList⟩ ∧
    scan (doubleQuoted s) = .ok ⟨[⟨.str s, .start⟩], Position.start.after (doubleQuoted s).toList⟩ := by
  constructor
  · have hlength := Rule.longest_single s.toList
    simp only [scan, singleQuoted, spelled, String.toList_ofList]
    refine tokensFrom_lexeme (by simpa using hlength) (by decide) ?_
    simp [ofLexeme, single_escaped]
  · have hlength := Rule.longest_double s.toList
    simp only [scan, doubleQuoted, spelled, String.toList_ofList]
    refine tokensFrom_lexeme (by simpa using hlength) (by decide) ?_
    simp [ofLexeme, double_escaped]

end Token

end ClassScript
