import ClassScript.Grammar
/-!
# Precedence

A tree of operators over variables is written with parentheses where the binding powers ask for them and
nowhere else (`OperatorTree.render`). Read back, before a semicolon, it is the same tree, and the semicolon
is left (`expr_render`).

An expression is read by a loop that extends what it has read so far. So the induction over trees says that
reading the tokens of a tree leads to the loop at the tree (`Climbs`); what the loop does next is up to the
tokens behind.
-/

namespace ClassScript

variable {ε τ α β : Type} {n : Nat} {ts mid rest : List τ} {a b c : α}

/-! ## What a run leaves -/

/-- The parser reads the value from the tokens and leaves the rest. -/
def Parser.Leaves (p : Parser ε τ n α) (ts : List τ) (a : α) (rest : List τ) : Prop :=
  ∀ h, ∃ r, p.run ts h = .ok r ∧ r.value = a ∧ r.rest = rest

@[inherit_doc Parser.Leaves]
def Consuming.Leaves (p : Consuming ε τ n α) (ts : List τ) (a : α) (rest : List τ) : Prop :=
  ∀ h, ∃ r, p.run ts h = .ok r ∧ r.value = a ∧ r.rest = rest

namespace Parser.Leaves

theorem pure (a : α) (ts : List τ) : Leaves (pure a : Parser ε τ n α) ts a ts := fun _ => ⟨_, rfl, rfl, rfl⟩

theorem bind {p : Parser ε τ n α} {f : α → Parser ε τ n β} {b : β} (hp : p.Leaves ts a mid)
    (hf : (f a).Leaves mid b rest) : (p >>= f).Leaves ts b rest := by
  intro h
  obtain ⟨r, hr, rfl, rfl⟩ := hp h
  obtain ⟨s, hs, rfl, rfl⟩ := hf (Nat.lt_of_le_of_lt r.suffix.length_le h)
  refine ⟨⟨s.value, s.rest, s.suffix.trans r.suffix⟩, ?_, rfl, rfl⟩
  change (Parser.bind p f).run ts h = _
  simp only [Parser.bind, hr, hs]

theorem accept (test : τ → Bool) {t : τ} (ht : test t = true) (ts : List τ) :
    (Parser.accept test : Parser ε τ n Bool).Leaves (t :: ts) true ts := by
  refine bind (a := some ()) (fun _ => ⟨⟨_, ts, List.suffix_cons t ts⟩, ?_, rfl, rfl⟩) (pure _ _)
  simp only [take?, ht, if_true]

theorem accept_other (test : τ → Bool) {t : τ} (ht : test t = false) (ts : List τ) :
    (Parser.accept test : Parser ε τ n Bool).Leaves (t :: ts) false (t :: ts) := by
  refine bind (a := none) (fun _ => ⟨⟨_, t :: ts, List.suffix_refl _⟩, ?_, rfl, rfl⟩) (pure _ _)
  simp only [take?, ht, Bool.false_eq_true, if_false]

section Loop

variable {step : α → τ → List τ → Option (Parser ε τ n α)} {t : τ}

theorem loop_stop (h : step a t ts = none) : (Parser.loop step a).Leaves (t :: ts) a (t :: ts) := by
  intro hlt
  refine ⟨⟨a, t :: ts, List.suffix_refl _⟩, ?_, rfl, rfl⟩
  change loopFrom step a (t :: ts) hlt = _
  rw [loopFrom, h]

theorem loop_step {p : Parser ε τ n α} (h : step a t ts = some p) (hp : p.Leaves ts b mid)
    (hloop : (Parser.loop step b).Leaves mid c rest) : (Parser.loop step a).Leaves (t :: ts) c rest := by
  intro hlt
  obtain ⟨r, hr, rfl, rfl⟩ := hp (Nat.lt_of_succ_lt hlt)
  obtain ⟨s, hs, rfl, rfl⟩ := hloop (Nat.lt_of_le_of_lt r.suffix.length_le (Nat.lt_of_succ_lt hlt))
  change loopFrom step r.value r.rest _ = _ at hs
  refine ⟨⟨s.value, s.rest, (s.suffix.trans r.suffix).trans (List.suffix_cons t ts)⟩, ?_, rfl, rfl⟩
  change loopFrom step a (t :: ts) hlt = _
  rw [loopFrom, h]
  simp only [hr, hs]

end Loop

end Parser.Leaves

namespace Consuming.Leaves

theorem parser {p : Consuming ε τ n α} (hp : p.Leaves ts a rest) : p.parser.Leaves ts a rest := by
  intro h
  obtain ⟨r, hr, ha, hrest⟩ := hp h
  refine ⟨r.toReply, ?_, ha, hrest⟩
  simp only [Consuming.parser, hr]

theorem look {f : List τ → Consuming ε τ n α} (hf : (f ts).Leaves ts a rest) : (Consuming.look f).Leaves ts a rest :=
  hf

theorem first {e : ε} {f : τ → List τ → Parser ε τ n α} {t : τ} (hf : (f t ts).Leaves ts a rest) :
    (Consuming.first e f).Leaves (t :: ts) a rest := by
  intro h
  obtain ⟨r, hr, rfl, rfl⟩ := hf (Nat.lt_of_succ_lt_succ h)
  refine ⟨⟨⟨r.value, r.rest, r.suffix.trans (List.suffix_cons t ts)⟩,
    Nat.lt_succ_of_le r.suffix.length_le⟩, ?_, rfl, rfl⟩
  simp only [Consuming.first, hr]

section FirstOr

variable {f : τ → List τ → Option (Parser ε τ n α)} {p : Consuming ε τ (n + 1) α} {t : τ}

theorem firstOr_some {q : Parser ε τ n α} (hf : f t ts = some q) (hq : q.Leaves ts a rest) :
    (Consuming.firstOr f p).Leaves (t :: ts) a rest := by
  intro h
  obtain ⟨r, hr, rfl, rfl⟩ := hq (Nat.lt_of_succ_lt_succ h)
  refine ⟨⟨⟨r.value, r.rest, r.suffix.trans (List.suffix_cons t ts)⟩,
    Nat.lt_succ_of_le r.suffix.length_le⟩, ?_, rfl, rfl⟩
  simp only [Consuming.firstOr, hf, hr]

theorem firstOr_none (hf : f t ts = none) (hp : p.Leaves (t :: ts) a rest) :
    (Consuming.firstOr f p).Leaves (t :: ts) a rest := by
  intro h
  obtain ⟨r, hr, ha, hrest⟩ := hp h
  refine ⟨r, ?_, ha, hrest⟩
  simp only [Consuming.firstOr, hf, hr]

end FirstOr

theorem andThen {p : Consuming ε τ (n + 1) α} {f : α → Parser ε τ n β} {b : β} (hp : p.Leaves ts a mid)
    (hf : (f a).Leaves mid b rest) : (p.andThen f).Leaves ts b rest := by
  intro h
  obtain ⟨r, hr, rfl, rfl⟩ := hp h
  obtain ⟨s, hs, rfl, rfl⟩ := hf (Nat.lt_of_lt_of_le r.shorter (Nat.le_of_lt_succ h))
  refine ⟨⟨⟨s.value, s.rest, s.suffix.trans r.suffix⟩,
    Nat.lt_of_le_of_lt s.suffix.length_le r.shorter⟩, ?_, rfl, rfl⟩
  simp only [Consuming.andThen, hr, hs]

end Consuming.Leaves

/-! ## Trees of operators -/

namespace Grammar

/-- A token between two operands, with its operator and how tightly it binds. -/
structure BinarySign where
  kind : TokenKind
  op : BinaryOp
  power : Nat
  spelled : binaryOp? kind = some (op, power)

/-- A token before its operand. -/
structure UnarySign where
  kind : TokenKind
  op : UnaryOp
  power : Nat
  spelled : unaryOp? kind = some (op, power)

/-- Operators over variables. -/
inductive OperatorTree where
  | var (name : String)
  | unary (sign : UnarySign) (operand : OperatorTree)
  | binary (sign : BinarySign) (left right : OperatorTree)

namespace OperatorTree

/-- The binding power of an operator between operands, if that is the root. -/
def power? : OperatorTree → Option Nat
  | .binary sign _ _ => some sign.power
  | _ => none

/-- Tokens, between parentheses if need be. -/
def wrapped (needed : Bool) (ks : List TokenKind) : List TokenKind :=
  if needed then .punct "(" :: (ks ++ [.punct ")"]) else ks

/-- The tokens of a tree. An operand gets parentheses if it is a binary operation below a unary one, binds
less tightly on the left of a binary one, or binds no more tightly on its right. -/
def render : OperatorTree → List TokenKind
  | .var name => [.variable name]
  | .unary sign operand => sign.kind :: wrapped operand.power?.isSome operand.render
  | .binary sign left right =>
    wrapped (left.power?.any (· < sign.power)) left.render ++
      sign.kind :: wrapped (right.power?.any (· ≤ sign.power)) right.render

/-- The expression is the tree, whatever its positions. -/
inductive Shapes : OperatorTree → Expr → Prop
  | var (name : String) (pos : Position) : Shapes (.var name) (.var pos name)
  | unary {operand : OperatorTree} {e : Expr} (sign : UnarySign) (pos : Position) (h : Shapes operand e) :
    Shapes (.unary sign operand) (.unary pos sign.op e)
  | binary {left right : OperatorTree} {l r : Expr} (sign : BinarySign) (pos : Position) (hl : Shapes left l)
    (hr : Shapes right r) : Shapes (.binary sign left right) (.binary pos sign.op l r)

/-- How tightly the tree holds together; all but binary operations do so most tightly. -/
def tightness (t : OperatorTree) : Nat := t.power?.getD Binding.unary

end OperatorTree

/-! ## Signs -/

/-- A word is an operator in any case. -/
theorem binaryOp?_name {v w : String} (h : lower v = lower w) : binaryOp? (.name v) = binaryOp? (.name w) := by
  unfold binaryOp?
  dsimp only
  rw [h]

namespace BinarySign

variable (s : BinarySign)

theorem kind_ne {k : TokenKind} (hk : binaryOp? k = none) : s.kind ≠ k := by
  rintro rfl
  cases s.spelled.symm.trans hk

theorem isPunct_kind {p : String} (hp : binaryOp? (.punct p) = none) : s.kind.isPunct p = false := by
  have hne := s.kind_ne hp
  generalize s.kind = k at hne
  cases k with
  | punct q =>
    simp only [TokenKind.isPunct, beq_eq_false_iff_ne]
    rintro rfl
    exact hne rfl
  | _ => rfl

theorem isWord_kind {w : String} (hw : binaryOp? (.name w) = none) : s.kind.isWord w = false := by
  have hspelled := s.spelled
  generalize s.kind = k at hspelled
  cases k with
  | name v =>
    simp only [TokenKind.isWord, sameWord, beq_eq_false_iff_ne]
    intro hsame
    cases hspelled.symm.trans ((binaryOp?_name hsame).trans hw)
  | _ => rfl

theorem assignment?_kind : assignment? s.kind = none := by
  unfold assignment?
  split
  case h_14 => rfl
  all_goals
    next heq => exact absurd heq (s.kind_ne rfl)

/-- Operators between operands bind less tightly than those before one. -/
theorem power_lt : s.power < Binding.not := by
  have h := s.spelled
  generalize s.kind = kind, s.op = op, s.power = power at h
  unfold binaryOp? at h
  split at h
  case h_23 => split at h <;> cases h <;> decide
  all_goals cases h <;> decide

end BinarySign

theorem UnarySign.power_cases (s : UnarySign) : s.power = Binding.not ∨ s.power = Binding.unary := by
  have h := s.spelled
  generalize s.kind = kind, s.op = op, s.power = power at h
  unfold unaryOp? at h
  split at h <;> cases h <;> simp

/-! ## Where reading stops -/

/-- The tokens go on with a semicolon, a closing parenthesis or an operator below the power. -/
inductive Stops (least : Nat) : List Token → Prop
  | semicolon (pos : Position) (rest : List Token) : Stops least (⟨.punct ";", pos⟩ :: rest)
  | close (pos : Position) (rest : List Token) : Stops least (⟨.punct ")", pos⟩ :: rest)
  | sign (s : BinarySign) (h : s.power < least) (pos : Position) (rest : List Token) :
    Stops least (⟨s.kind, pos⟩ :: rest)

section

variable {n least : Nat} {t : Token} {ts after : List Token}

theorem Stops.mono {l : Nat} (h : Stops least ts) (hl : least ≤ l) : Stops l ts := by
  cases h with
  | semicolon => exact .semicolon _ _
  | close => exact .close _ _
  | sign s hs => exact .sign s (Nat.lt_of_lt_of_le hs hl) _ _

/-- No operator binds as tightly as those before their operand. -/
theorem Stops.below {l : Nat} (h : Stops least ts) (hl : Binding.not ≤ l) : Stops l ts := by
  cases h with
  | semicolon => exact .semicolon _ _
  | close => exact .close _ _
  | sign s => exact .sign s (Nat.lt_of_lt_of_le s.power_lt hl) _ _

theorem operator?_sign (self : Rules n) (least : Nat) (left : Expr) (s : BinarySign) (pos : Position) :
    operator? self least left ⟨s.kind, pos⟩ =
      if s.power < least then none else some do return .binary left.pos s.op left (← self.expr (s.power + 1)) := by
  have hword : s.kind.isWord "instanceof" = false := s.isWord_kind rfl
  unfold operator?
  simp only [s.assignment?_kind, Token.isPunct, Token.isWord, s.isPunct_kind (p := "??") rfl,
    s.isPunct_kind (p := "??=") rfl, s.isPunct_kind (p := "?") rfl, hword, s.spelled, Bool.or_self,
    Bool.false_eq_true, if_false]

theorem suffix?_sign (self : Rules n) (e : Expr) (s : BinarySign) (pos : Position) :
    suffix? self e ⟨s.kind, pos⟩ = none := by
  unfold suffix?
  split
  case h_7 => rfl
  all_goals
    next heq => exact absurd heq (s.kind_ne rfl)

/-- Neither a further operator nor an access or call follows. -/
theorem Stops.head (h : Stops least (t :: ts)) (self : Rules n) (e : Expr) :
    operator? self least e t = none ∧ suffix? self e t = none ∧ t.isPunct "**" = false := by
  cases h with
  | semicolon => exact ⟨rfl, rfl, rfl⟩
  | close => exact ⟨rfl, rfl, rfl⟩
  | sign s hs pos =>
    refine ⟨?_, suffix?_sign self e s pos, s.isPunct_kind rfl⟩
    rw [operator?_sign, if_pos hs]

theorem accepts_other {s : String} (h : t.isPunct s = false) (ts : List Token) :
    (accepts s : Reads n Bool).Leaves (t :: ts) false (t :: ts) :=
  .accept_other (fun x : Token => x.isPunct s) h ts

theorem symbol_leaves {s : String} (h : t.isPunct s = true) (ts : List Token) :
    (symbol s : Reads n Unit).Leaves (t :: ts) () ts :=
  .bind (.accept (fun x : Token => x.isPunct s) h ts) (.pure _ _)

/-- Behind a primary expression an operand ends where reading stops. -/
theorem unary_primary {self : Rules n} {e : Expr} (hbefore : before? self t ts = none)
    (hprimary : (primary self).Leaves (t :: ts) e after) (hstops : Stops least after) :
    (unary self).Leaves (t :: ts) e after := by
  obtain ⟨t', after, rfl⟩ : ∃ t' after', after = t' :: after' := by cases hstops <;> exact ⟨_, _, rfl⟩
  obtain ⟨-, hsuffix, hpower⟩ := hstops.head self e
  refine .firstOr_none hbefore (.look ?_)
  refine .andThen (.andThen hprimary (.loop_stop hsuffix)) ?_
  exact .bind (accepts_other hpower _) (.pure _ _)

end

/-! ## Climbing -/

/-- Reading an expression leads through the tokens to the loop at `e`, unless the tokens behind bind more
tightly than the expression holds together. -/
def Climbs (ts : List Token) (e : Expr) (tight : Nat) : Prop :=
  ∀ {n least : Nat} {after rest : List Token} {b : Expr}, least ≤ tight → Stops (tight + 1) after →
    (Parser.loop (fun left t _ => operator? (rules n) least left t) e).Leaves after b rest →
    (expr (rules n) least).Leaves (ts ++ after) b rest

namespace Climbs

variable {n least tight : Nat} {ts after : List Token} {e : Expr}

/-- The expression is read if the tokens behind stop it. -/
theorem reads (h : Climbs ts e tight) (hleast : least ≤ tight) (hstops : Stops least after) :
    ((rules n).expr least).Leaves (ts ++ after) e after := by
  cases n with
  | zero => exact fun hlt => absurd hlt (Nat.not_lt_zero _)
  | succ n =>
    refine h hleast (hstops.mono (Nat.le_succ_of_le hleast)) ?_
    obtain ⟨t, after, rfl⟩ : ∃ t' after', after = t' :: after' := by cases hstops <;> exact ⟨_, _, rfl⟩
    exact .loop_stop (hstops.head (rules n) e).1

theorem ofUnary (h : ∀ {n after}, Stops (Binding.unary + 1) after → (unary (rules n)).Leaves (ts ++ after) e after) :
    Climbs ts e Binding.unary :=
  fun _ hstops hloop => .andThen (h hstops) hloop

/-- Between parentheses an expression holds together most tightly. -/
theorem wrapped (h : Climbs ts e tight) (hhead : ∀ t ∈ ts.head?, nameOf? t = none) (p q : Position) :
    Climbs (⟨.punct "(", p⟩ :: (ts ++ [⟨.punct ")", q⟩])) e Binding.unary := by
  refine ofUnary fun {n after} hstops => ?_
  rw [List.cons_append, List.append_assoc, List.singleton_append]
  refine unary_primary ?_ (.first ?_) hstops
  · -- a name behind the parenthesis could make it a cast
    cases ts with
    | nil => rfl
    | cons t ts =>
      obtain ⟨kind, pos⟩ := t
      cases kind with
      | name => cases hhead _ rfl
      | _ => rfl
  · exact .bind (h.reads (Nat.zero_le _) (.close _ _)).parser (.bind (symbol_leaves rfl _) (.pure _ _))

end Climbs

namespace OperatorTree

/-- The tokens start with one that is no name. -/
def Unnamed (ks : List TokenKind) : Prop := ∃ k rest, ks = k :: rest ∧ ∀ w, k ≠ .name w

theorem unnamed_wrapped {ks : List TokenKind} (h : Unnamed ks) (needed : Bool) : Unnamed (wrapped needed ks) := by
  cases needed with
  | false => exact h
  | true => exact ⟨_, _, rfl, nofun⟩

theorem unnamed_render (t : OperatorTree) : Unnamed t.render := by
  induction t with
  | var name => exact ⟨_, _, rfl, nofun⟩
  | unary sign operand =>
    refine ⟨_, _, rfl, fun w hw => ?_⟩
    have hspelled := sign.spelled
    rw [hw] at hspelled
    cases hspelled
  | binary sign left right ihl =>
    obtain ⟨k, rest, hks, hk⟩ := unnamed_wrapped ihl (left.power?.any (· < sign.power))
    exact ⟨k, rest ++ _, by rw [render, hks, List.cons_append], hk⟩

theorem nameOf?_head {t : OperatorTree} {ts : List Token} (hts : ts.map (·.kind) = t.render) :
    ∀ x ∈ ts.head?, nameOf? x = none := by
  obtain ⟨k, rest, hks, hk⟩ := t.unnamed_render
  obtain ⟨⟨kind, pos⟩, ts, rfl, rfl, -⟩ := List.map_eq_cons_iff.1 (hts.trans hks)
  rintro _ ⟨⟩
  cases kind with
  | name w => exact absurd rfl (hk w)
  | _ => rfl

/-! How tightly operands hold together behind what `render` does to them. -/

theorem tightness_operand (t : OperatorTree) :
    (if t.power?.isSome then Binding.unary else t.tightness) = Binding.unary := by
  cases t <;> rfl

theorem le_tightness_left (t : OperatorTree) (s : BinarySign) :
    s.power ≤ if t.power?.any (· < s.power) then Binding.unary else t.tightness := by
  have hs : s.power ≤ Binding.unary := Nat.le_trans (Nat.le_of_lt s.power_lt) (by decide)
  unfold tightness
  cases t.power? with
  | none => exact hs
  | some p => grind

theorem lt_tightness_right (t : OperatorTree) (s : BinarySign) :
    s.power < if t.power?.any (· ≤ s.power) then Binding.unary else t.tightness := by
  have hs : s.power < Binding.unary := Nat.lt_of_lt_of_le s.power_lt (by decide)
  unfold tightness
  cases t.power? with
  | none => exact hs
  | some p => grind

/-- An operand that may stand between parentheses. -/
theorem exists_climbs_wrapped {t : OperatorTree}
    (ih : ∀ ts : List Token, ts.map (·.kind) = t.render → ∃ e, t.Shapes e ∧ Climbs ts e t.tightness) {needed : Bool}
    {ts : List Token} (hts : ts.map (·.kind) = wrapped needed t.render) :
    ∃ e, t.Shapes e ∧ Climbs ts e (if needed then Binding.unary else t.tightness) := by
  cases needed with
  | false => exact ih ts hts
  | true =>
    obtain ⟨⟨_, p⟩, ts, rfl, hopen, hts⟩ := List.map_eq_cons_iff.1 hts
    obtain ⟨inner, close, rfl, hinner, hclose⟩ := List.map_eq_append_iff.1 hts
    obtain ⟨⟨_, q⟩, rfl, hq⟩ := List.map_eq_singleton_iff.1 hclose
    cases hopen
    cases hq
    obtain ⟨e, hshapes, hclimbs⟩ := ih inner hinner
    exact ⟨e, hshapes, hclimbs.wrapped (nameOf?_head hinner) p q⟩

/-- Reading the tokens of a tree leads to the loop at the tree. -/
theorem exists_climbs (t : OperatorTree) :
    ∀ ts : List Token, ts.map (·.kind) = t.render → ∃ e, t.Shapes e ∧ Climbs ts e t.tightness := by
  induction t with
  | var name =>
    intro ts hts
    obtain ⟨⟨_, pos⟩, rfl, hkind⟩ := List.map_eq_singleton_iff.1 hts
    cases hkind
    refine ⟨_, .var name pos, Climbs.ofUnary fun hstops => ?_⟩
    exact unary_primary rfl (.first (.pure _ _)) hstops
  | unary sign operand ih =>
    intro ts hts
    obtain ⟨⟨_, pos⟩, ts, rfl, hkind, hoperand⟩ := List.map_eq_cons_iff.1 hts
    cases hkind
    obtain ⟨e, hshapes, hclimbs⟩ := exists_climbs_wrapped ih hoperand
    rw [tightness_operand] at hclimbs
    have hpower : Binding.not ≤ sign.power ∧ sign.power ≤ Binding.unary := by
      rcases sign.power_cases with h | h <;> rw [h] <;> decide
    refine ⟨_, .unary sign pos hshapes, Climbs.ofUnary fun {n after} hstops => ?_⟩
    have hbefore : before? (rules n) ⟨sign.kind, pos⟩ (ts ++ after) =
        some do return .unary pos sign.op (← (rules n).expr sign.power) := by
      simp only [before?, sign.spelled]
    refine .firstOr_some hbefore ?_
    exact .bind (hclimbs.reads hpower.2 (hstops.below hpower.1)).parser (.pure _ _)
  | binary sign left right ihl ihr =>
    intro ts hts
    obtain ⟨lts, _, rfl, hlts, hts⟩ := List.map_eq_append_iff.1 hts
    obtain ⟨⟨_, pos⟩, rts, rfl, hkind, hrts⟩ := List.map_eq_cons_iff.1 hts
    cases hkind
    obtain ⟨l, hl, hlclimbs⟩ := exists_climbs_wrapped ihl hlts
    obtain ⟨r, hr, hrclimbs⟩ := exists_climbs_wrapped ihr hrts
    have htightl := le_tightness_left left sign
    have htightr := lt_tightness_right right sign
    refine ⟨_, .binary sign l.pos hl hr, fun {n least after rest b} hleast hstops hloop => ?_⟩
    change least ≤ sign.power at hleast
    rw [List.append_assoc, List.cons_append]
    -- the loop takes the operator, reads the right operand above its power, and goes on
    have hoperator := operator?_sign (rules n) least l sign pos
    rw [if_neg (Nat.not_lt.2 hleast)] at hoperator
    refine hlclimbs (Nat.le_trans hleast htightl) (.sign sign (Nat.lt_succ_of_le htightl) _ _) ?_
    refine .loop_step hoperator ?_ hloop
    exact .bind (hrclimbs.reads htightr hstops).parser (.pure _ _)

end OperatorTree

/-- Read back before a semicolon, the tokens of a tree are that tree, wherever they stand, and the semicolon
is left. -/
theorem expr_render (t : OperatorTree) {ts : List Token} (hts : ts.map (·.kind) = t.render) (pos : Position)
    (rest : List Token) {n : Nat} (h : (ts ++ ⟨.punct ";", pos⟩ :: rest).length < n) :
    ∃ r, ((rules n).expr 0).run (ts ++ ⟨.punct ";", pos⟩ :: rest) h = .ok r ∧ t.Shapes r.value ∧
      r.rest = ⟨.punct ";", pos⟩ :: rest := by
  obtain ⟨e, hshapes, hclimbs⟩ := t.exists_climbs ts hts
  obtain ⟨r, hr, rfl, hrest⟩ := hclimbs.reads (Nat.zero_le _) (.semicolon pos rest) h
  exact ⟨r, hr, hshapes, hrest⟩

/-- Not the difference of `a` and a difference, and a product with a sum on its left. -/
def nestedTree : OperatorTree :=
  .binary ⟨.punct "&&", .and, Binding.and, rfl⟩
    (.unary ⟨.punct "!", .not, Binding.not, rfl⟩
      (.binary ⟨.punct "-", .sub, Binding.additive, rfl⟩ (.var "a")
        (.binary ⟨.punct "-", .sub, Binding.additive, rfl⟩ (.var "b") (.var "c"))))
    (.binary ⟨.punct "*", .mul, Binding.multiplicative, rfl⟩
      (.binary ⟨.punct "+", .add, Binding.additive, rfl⟩ (.var "d") (.var "e")) (.var "f"))

/-- `!($a - ($b - $c)) && ($d + $e) * $f` -/
def nestedTokens : List Token :=
  [.punct "!", .punct "(", .variable "a", .punct "-", .punct "(", .variable "b", .punct "-", .variable "c",
    .punct ")", .punct ")", .punct "&&", .punct "(", .variable "d", .punct "+", .variable "e", .punct ")",
    .punct "*", .variable "f"].map (⟨·, .start⟩)

theorem nestedTree_read : nestedTokens.map (·.kind) = nestedTree.render ∧
    ∃ r, ((rules 20).expr 0).run (nestedTokens ++ [⟨.punct ";", .start⟩]) (by decide) = .ok r ∧
      nestedTree.Shapes r.value ∧ r.rest = [⟨.punct ";", .start⟩] :=
  ⟨rfl, expr_render nestedTree rfl .start [] (by decide)⟩

end Grammar

end ClassScript
