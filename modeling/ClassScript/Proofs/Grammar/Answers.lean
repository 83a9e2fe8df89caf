import ClassScript.Grammar.Signature
/-!
# What parsers answer

`Answers all E Q` says of a parser how it ends on tokens that are all from a list: a failure has `E`, and a
value that is read has `Q`. It goes through the combinators, so for a rule of the grammar only the faults
that it raises itself are to be looked at.
-/

namespace ClassScript

variable {ε τ α β : Type} {n : Nat} {all : List τ} {E : ε → Prop} {Q : α → Prop} {R : β → Prop}

/-- On tokens from `all`, a failure of the parser has `E` and what it reads has `Q`. -/
def Parser.Answers (all : List τ) (E : ε → Prop) (p : Parser ε τ n α) (Q : α → Prop) : Prop :=
  ∀ ts h, ts ⊆ all → match p.run ts h with
    | .error e => E e
    | .ok r => Q r.value

@[inherit_doc Parser.Answers]
def Consuming.Answers (all : List τ) (E : ε → Prop) (p : Consuming ε τ n α) (Q : α → Prop) : Prop :=
  ∀ ts h, ts ⊆ all → match p.run ts h with
    | .error e => E e
    | .ok r => Q r.value

namespace Parser.Answers

theorem pure {a : α} (h : Q a) : Answers all E (pure a : Parser ε τ n α) Q := fun _ _ _ => h

theorem fail {e : ε} (h : E e) : (Parser.fail e : Parser ε τ n α).Answers all E Q := fun _ _ _ => h

theorem ahead : (Parser.ahead : Parser ε τ n (List τ)).Answers all E (· ⊆ all) := fun _ _ h => h

theorem take? {value : τ → Option α} :
    (Parser.take? value : Parser ε τ n (Option α)).Answers all E fun _ => True := by
  intro ts h _
  cases ts with
  | nil => trivial
  | cons t rest =>
    dsimp only [Parser.take?]
    cases value t <;> trivial

theorem takeWhile {test : τ → Bool} :
    (Parser.takeWhile test : Parser ε τ n (List τ)).Answers all E fun _ => True := fun _ _ _ => trivial

theorem bind {p : Parser ε τ n α} {f : α → Parser ε τ n β} (hp : p.Answers all E Q)
    (hf : ∀ a, Q a → (f a).Answers all E R) : (p >>= f).Answers all E R := by
  intro ts h hall
  have ha := hp ts h hall
  change match (Parser.bind p f).run ts h with
    | .error e => E e
    | .ok r => R r.value
  dsimp only [Parser.bind]
  cases hrun : p.run ts h with
  | error e => rwa [hrun] at ha
  | ok a =>
    rw [hrun] at ha
    have hb := hf a.value ha a.rest (Nat.lt_of_le_of_lt a.suffix.length_le h) (List.Subset.trans a.suffix.subset hall)
    dsimp only
    split at hb <;> simp only [*]

theorem mono {p : Parser ε τ n α} {Q' : α → Prop} (hp : p.Answers all E Q) (h : ∀ a, Q a → Q' a) :
    p.Answers all E Q' := by
  intro ts hts hall
  have ha := hp ts hts hall
  split at ha
  · exact ha
  · exact h _ ha

/-- Behind a parser whose value does not matter. -/
theorem after {p : Parser ε τ n α} {f : α → Parser ε τ n β} (hp : p.Answers all E fun _ => True)
    (hf : ∀ a, (f a).Answers all E R) : (p >>= f).Answers all E R := bind hp fun a _ => hf a

theorem map {p : Parser ε τ n α} {f : α → β} (hp : p.Answers all E fun a => R (f a)) :
    (f <$> p).Answers all E R := bind hp fun _ => pure

theorem discard {p : Parser ε τ n α} (hp : p.Answers all E fun _ => True) :
    Answers all E (discard p : Parser ε τ n Unit) fun _ => True := map hp

theorem ite {c : Prop} [Decidable c] {p q : Parser ε τ n α} (hp : p.Answers all E Q)
    (hq : q.Answers all E Q) : (if c then p else q).Answers all E Q := by split <;> assumption

/-- Behind a value that is read in one of two ways and does not matter. -/
theorem iteAfter {c : Prop} [Decidable c] {p q : Parser ε τ n α} {f : α → Parser ε τ n β}
    (hp : p.Answers all E fun _ => True) (hq : q.Answers all E fun _ => True) (hf : ∀ a, (f a).Answers all E R) :
    (if c then p >>= f else q >>= f).Answers all E R := ite (after hp hf) (after hq hf)

theorem accept {test : τ → Bool} : (Parser.accept test : Parser ε τ n Bool).Answers all E fun _ => True :=
  after take? fun _ => pure trivial

end Parser.Answers

namespace Consuming.Answers

theorem parser {p : Consuming ε τ n α} (hp : p.Answers all E Q) : p.parser.Answers all E Q := by
  intro ts h hall
  have ha := hp ts h hall
  dsimp only [Consuming.parser]
  split at ha <;> simp only [*]

theorem mono {p : Consuming ε τ n α} {Q' : α → Prop} (hp : p.Answers all E Q) (h : ∀ a, Q a → Q' a) :
    p.Answers all E Q' := by
  intro ts hts hall
  have ha := hp ts hts hall
  split at ha
  · exact ha
  · exact h _ ha

theorem never : (Consuming.never : Consuming ε τ 0 α).Answers all E Q := fun _ h => absurd h (Nat.not_lt_zero _)

theorem fail {e : ε} (h : E e) : (Consuming.fail e : Consuming ε τ n α).Answers all E Q := fun _ _ _ => h

theorem ite {c : Prop} [Decidable c] {p q : Consuming ε τ n α} (hp : p.Answers all E Q)
    (hq : q.Answers all E Q) : (if c then p else q).Answers all E Q := by split <;> assumption

theorem look {f : List τ → Consuming ε τ n α} (hf : ∀ ts, ts ⊆ all → (f ts).Answers all E Q) :
    (Consuming.look f).Answers all E Q := fun ts h hall => hf ts hall ts h hall

theorem take {refuse : List τ → ε} {value : τ → Option α} (h : ∀ ts, ts ⊆ all → E (refuse ts)) :
    (Consuming.take refuse value : Consuming ε τ n α).Answers all E fun _ => True := by
  intro ts _ hall
  cases ts with
  | nil => exact h [] hall
  | cons t rest =>
    dsimp only [Consuming.take]
    cases value t with
    | none => exact h (t :: rest) hall
    | some a => trivial

theorem before {p : Parser ε τ n α} {f : α → Consuming ε τ n β} (hp : p.Answers all E Q)
    (hf : ∀ a, Q a → (f a).Answers all E R) : (p.before f).Answers all E R := by
  intro ts h hall
  have ha := hp ts h hall
  dsimp only [Parser.before]
  cases hrun : p.run ts h with
  | error e => rwa [hrun] at ha
  | ok a =>
    rw [hrun] at ha
    have hb := hf a.value ha a.rest (Nat.lt_of_le_of_lt a.suffix.length_le h) (List.Subset.trans a.suffix.subset hall)
    dsimp only
    split at hb <;> simp only [*]

theorem bind {p : Consuming ε τ n α} {f : α → Parser ε τ n β} (hp : p.Answers all E Q)
    (hf : ∀ a, Q a → (f a).Answers all E R) : (p.bind f).Answers all E R := by
  intro ts h hall
  have ha := hp ts h hall
  dsimp only [Consuming.bind]
  cases hrun : p.run ts h with
  | error e => rwa [hrun] at ha
  | ok a =>
    rw [hrun] at ha
    have hb := hf a.value ha a.rest (Nat.lt_trans a.shorter h) (List.Subset.trans a.suffix.subset hall)
    dsimp only
    split at hb <;> simp only [*]

theorem map {p : Consuming ε τ n α} {f : α → β} (hp : p.Answers all E fun a => R (f a)) :
    (p.map f).Answers all E R := bind hp fun _ => Parser.Answers.pure

theorem andThen {p : Consuming ε τ (n + 1) α} {f : α → Parser ε τ n β} (hp : p.Answers all E Q)
    (hf : ∀ a, Q a → (f a).Answers all E R) : (p.andThen f).Answers all E R := by
  intro ts h hall
  have ha := hp ts h hall
  dsimp only [Consuming.andThen]
  cases hrun : p.run ts h with
  | error e => rwa [hrun] at ha
  | ok a =>
    rw [hrun] at ha
    have hb := hf a.value ha a.rest (Nat.lt_of_lt_of_le a.shorter (Nat.le_of_lt_succ h))
      (List.Subset.trans a.suffix.subset hall)
    dsimp only
    split at hb <;> simp only [*]

theorem first {atEnd : ε} {f : τ → List τ → Parser ε τ n α} (hend : E atEnd)
    (hf : ∀ t rest, t :: rest ⊆ all → (f t rest).Answers all E Q) : (Consuming.first atEnd f).Answers all E Q := by
  intro ts h hall
  cases ts with
  | nil => exact hend
  | cons t rest =>
    have ha := hf t rest hall rest (Nat.lt_of_succ_lt_succ h) (List.subset_of_cons_subset hall)
    dsimp only [Consuming.first]
    split at ha <;> simp only [*]

theorem firstOr {f : τ → List τ → Option (Parser ε τ n α)} {p : Consuming ε τ (n + 1) α}
    (hf : ∀ t rest q, t :: rest ⊆ all → f t rest = some q → q.Answers all E Q) (hp : p.Answers all E Q) :
    (Consuming.firstOr f p).Answers all E Q := by
  intro ts h hall
  cases ts with
  | nil => exact hp [] h hall
  | cons t rest =>
    dsimp only [Consuming.firstOr]
    cases hq : f t rest with
    | none => exact hp (t :: rest) h hall
    | some q =>
      have ha := hf t rest q hall hq rest (Nat.lt_of_succ_lt_succ h) (List.subset_of_cons_subset hall)
      dsimp only
      split at ha <;> simp only [*]

end Consuming.Answers

/-! ## Loops -/

namespace Parser.Answers

/-- A loop reads what each of its steps keeps. -/
theorem loop {step : α → τ → List τ → Option (Parser ε τ n α)} {a : α} (ha : Q a)
    (hstep : ∀ a, Q a → ∀ t rest p, t :: rest ⊆ all → step a t rest = some p → p.Answers all E Q) :
    (Parser.loop step a).Answers all E Q := by
  intro ts h hall
  dsimp only [Parser.loop]
  -- along the tokens that are left: each step takes one
  fun_induction Parser.loopFrom step a ts h with
  | case1 => exact ha
  | case2 => exact ha
  | case3 a t rest h p hp e he =>
    have hr := hstep a ha t rest p hall hp rest (Nat.lt_of_succ_lt h) (List.subset_of_cons_subset hall)
    rwa [he] at hr
  | case4 a t rest h p hp r he _ e hs _ ih =>
    have hr := hstep a ha t rest p hall hp rest (Nat.lt_of_succ_lt h) (List.subset_of_cons_subset hall)
    rw [he] at hr
    have hs' := ih hr (List.Subset.trans r.suffix.subset (List.subset_of_cons_subset hall))
    rwa [hs] at hs'
  | case5 a t rest h p hp r he _ s hs _ ih =>
    have hr := hstep a ha t rest p hall hp rest (Nat.lt_of_succ_lt h) (List.subset_of_cons_subset hall)
    rw [he] at hr
    have hs' := ih hr (List.Subset.trans r.suffix.subset (List.subset_of_cons_subset hall))
    rwa [hs] at hs'

theorem many {stop : List τ → Bool} {item : Consuming ε τ n α} (hitem : item.Answers all E Q) :
    (Parser.many stop item).Answers all E fun as => ∀ a ∈ as, Q a := by
  intro ts h hall
  dsimp only [Parser.many]
  fun_induction Parser.manyFrom stop item ts h with
  | case1 => exact nofun
  | case2 ts h _ e he =>
    have hr := hitem ts h hall
    rwa [he] at hr
  | case3 ts h _ r he e hs ih =>
    have hs' := ih (List.Subset.trans r.suffix.subset hall)
    rwa [hs] at hs'
  | case4 ts h _ r he s hs ih =>
    have hr := hitem ts h hall
    have hs' := ih (List.Subset.trans r.suffix.subset hall)
    rw [he] at hr
    rw [hs] at hs'
    exact List.forall_mem_cons.2 ⟨hr, hs'⟩

theorem separatedUntil {stop : List τ → Bool} {separator : τ → Bool} {item : Consuming ε τ n α}
    (hitem : item.Answers all E Q) :
    (Parser.separatedUntil stop separator item).Answers all E fun as => ∀ a ∈ as, Q a := by
  refine bind ahead fun _ _ => ite (pure nofun) (bind hitem.parser fun a ha => ?_)
  refine bind (Q := fun acc => ∀ a ∈ acc.1, Q a) (loop nofun fun acc hacc t rest p _ hp => ?_) ?_
  · split at hp
    · cases hp
      refine bind ahead fun _ _ => ite (pure hacc) ?_
      exact bind hitem.parser fun b hb => pure (List.forall_mem_cons.2 ⟨hb, hacc⟩)
    · cases hp
  · exact fun more hmore => pure (List.forall_mem_cons.2 ⟨ha, by simpa using hmore⟩)

end Parser.Answers

theorem Consuming.Answers.separated {separator : τ → Bool} {item : Consuming ε τ n α}
    (hitem : item.Answers all E Q) :
    (Parser.separated separator item).Answers all E fun as => ∀ a ∈ as, Q a := by
  refine bind hitem fun a ha => ?_
  refine .bind (Q := fun acc => ∀ a ∈ acc, Q a) (.loop nofun fun acc hacc t rest p _ hp => ?_) ?_
  · split at hp
    · cases hp
      exact .bind hitem.parser fun b hb => .pure (List.forall_mem_cons.2 ⟨hb, hacc⟩)
    · cases hp
  · exact fun more hmore => .pure (List.forall_mem_cons.2 ⟨ha, by simpa using hmore⟩)

end ClassScript
