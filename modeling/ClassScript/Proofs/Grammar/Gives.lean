import ClassScript.Proofs.Grammar.Answers
/-!
# What parsers give

`Gives Q` says that whatever a parser reads has `Q`. It is the half of `Answers` that is about values, so it
goes through the combinators as `Answers` does, and a loop gives what its steps keep.
-/

namespace ClassScript

variable {ε τ α β : Type} {n : Nat} {Q : α → Prop} {R : β → Prop}

/-- Whatever the parser reads has the property. -/
def Parser.Gives (p : Parser ε τ n α) (Q : α → Prop) : Prop := ∀ all, p.Answers all (fun _ => True) Q

@[inherit_doc Parser.Gives]
def Consuming.Gives (p : Consuming ε τ n α) (Q : α → Prop) : Prop := ∀ all, p.Answers all (fun _ => True) Q

namespace Parser.Gives

/-- What the parser reads from some tokens has the property. -/
theorem run {p : Parser ε τ n α} (hp : p.Gives Q) {ts : List τ} {h : ts.length < n} {r : Reply ts α}
    (hr : p.run ts h = .ok r) : Q r.value := by
  have hanswer := hp ts ts h (List.Subset.refl ts)
  rwa [hr] at hanswer

theorem pure {a : α} (h : Q a) : Gives (pure a : Parser ε τ n α) Q := fun _ => .pure h

theorem fail (e : ε) : (Parser.fail e : Parser ε τ n α).Gives Q := fun _ => .fail trivial

theorem mono {p : Parser ε τ n α} {Q' : α → Prop} (hp : p.Gives Q) (h : ∀ a, Q a → Q' a) : p.Gives Q' :=
  fun all => (hp all).mono h

theorem any (p : Parser ε τ n α) : p.Gives fun _ => True := by
  intro all ts h _
  cases p.run ts h <;> trivial

theorem bind {p : Parser ε τ n α} {f : α → Parser ε τ n β} (hp : p.Gives Q)
    (hf : ∀ a, Q a → (f a).Gives R) : (p >>= f).Gives R :=
  fun all => (hp all).bind fun a ha => hf a ha all

/-- Behind a parser whose value does not matter. -/
theorem after {p : Parser ε τ n α} {f : α → Parser ε τ n β} (hf : ∀ a, (f a).Gives R) :
    (p >>= f).Gives R := bind (any p) fun a _ => hf a

theorem map {p : Parser ε τ n α} {f : α → β} (hp : p.Gives fun a => R (f a)) : (f <$> p).Gives R :=
  bind hp fun _ => pure

theorem ite {c : Prop} [Decidable c] {p q : Parser ε τ n α} (hp : p.Gives Q) (hq : q.Gives Q) :
    (if c then p else q).Gives Q := fun all => .ite (hp all) (hq all)

/-- Behind a value that is read in one of two ways. -/
theorem iteBind {c : Prop} [Decidable c] {p q : Parser ε τ n α} {f : α → Parser ε τ n β}
    (hp : p.Gives Q) (hq : q.Gives Q) (hf : ∀ a, Q a → (f a).Gives R) :
    (if c then p >>= f else q >>= f).Gives R := ite (bind hp hf) (bind hq hf)

/-- A loop gives what each of its steps keeps. -/
theorem loop {step : α → τ → List τ → Option (Parser ε τ n α)} {a : α} (ha : Q a)
    (hstep : ∀ a, Q a → ∀ t rest p, step a t rest = some p → p.Gives Q) : (Parser.loop step a).Gives Q :=
  fun all => .loop ha fun a ha t rest p _ hp => hstep a ha t rest p hp all

theorem many {stop : List τ → Bool} {item : Consuming ε τ n α} (hitem : item.Gives Q) :
    (Parser.many stop item).Gives fun as => ∀ a ∈ as, Q a := fun all => .many (hitem all)

theorem separatedUntil {stop : List τ → Bool} {separator : τ → Bool} {item : Consuming ε τ n α}
    (hitem : item.Gives Q) : (Parser.separatedUntil stop separator item).Gives fun as => ∀ a ∈ as, Q a :=
  fun all => .separatedUntil (hitem all)

end Parser.Gives

namespace Consuming.Gives

theorem parser {p : Consuming ε τ n α} (hp : p.Gives Q) : p.parser.Gives Q := fun all => (hp all).parser

theorem any (p : Consuming ε τ n α) : p.Gives fun _ => True := by
  intro all ts h _
  cases p.run ts h <;> trivial

theorem never : (Consuming.never : Consuming ε τ 0 α).Gives Q := fun _ => .never

theorem fail (e : ε) : (Consuming.fail e : Consuming ε τ n α).Gives Q := fun _ => .fail trivial

theorem ite {c : Prop} [Decidable c] {p q : Consuming ε τ n α} (hp : p.Gives Q) (hq : q.Gives Q) :
    (if c then p else q).Gives Q := fun all => .ite (hp all) (hq all)

theorem before {p : Parser ε τ n α} {f : α → Consuming ε τ n β} (hf : ∀ a, (f a).Gives R) :
    (p.before f).Gives R := fun all => .before (Parser.Gives.any p all) fun a _ => hf a all

theorem look {f : List τ → Consuming ε τ n α} (hf : ∀ ts, (f ts).Gives Q) : (Consuming.look f).Gives Q :=
  fun all => .look fun ts _ => hf ts all

theorem first {e : ε} {f : τ → List τ → Parser ε τ n α} (hf : ∀ t rest, (f t rest).Gives Q) :
    (Consuming.first e f).Gives Q := fun all => .first trivial fun t rest _ => hf t rest all

theorem firstOr {f : τ → List τ → Option (Parser ε τ n α)} {p : Consuming ε τ (n + 1) α}
    (hf : ∀ t rest q, f t rest = some q → q.Gives Q) (hp : p.Gives Q) : (Consuming.firstOr f p).Gives Q :=
  fun all => .firstOr (fun t rest q _ hq => hf t rest q hq all) (hp all)

theorem andThen {p : Consuming ε τ (n + 1) α} {f : α → Parser ε τ n β} (hp : p.Gives Q)
    (hf : ∀ a, Q a → (f a).Gives R) : (p.andThen f).Gives R :=
  fun all => (hp all).andThen fun a ha => hf a ha all

theorem bind {p : Consuming ε τ n α} {f : α → Parser ε τ n β} (hp : p.Gives Q)
    (hf : ∀ a, Q a → (f a).Gives R) : (p.bind f).Gives R :=
  fun all => (hp all).bind fun a ha => hf a ha all

theorem map {p : Consuming ε τ n α} {f : α → β} (hp : p.Gives fun a => R (f a)) : (p.map f).Gives R :=
  bind hp fun _ => Parser.Gives.pure

theorem separated {separator : τ → Bool} {item : Consuming ε τ n α} (hitem : item.Gives Q) :
    (Parser.separated separator item).Gives fun as => ∀ a ∈ as, Q a := fun all => .separated (hitem all)

end Consuming.Gives

namespace Grammar

theorem failExpected_gives (what : Expected) : (failExpected what : Reads n α).Gives Q :=
  .after fun _ => .fail _

theorem listUntil_gives {close : String} {item : Takes n α} (hitem : item.Gives Q) :
    (listUntil close item).Gives fun as => ∀ a ∈ as, Q a :=
  .bind (.separatedUntil hitem) fun _ has => .after fun _ => .pure has

theorem optionally_gives {s : String} {p : Takes n α} (hp : p.Gives Q) :
    (optionally s p).Gives fun o => ∀ a ∈ o.toList, Q a := by
  refine .after fun _ => .ite (.bind hp.parser fun a ha => .pure ?_) (.pure nofun)
  simpa using ha

end Grammar

end ClassScript
