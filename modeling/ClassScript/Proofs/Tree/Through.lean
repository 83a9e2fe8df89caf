import ClassScript.Proofs.Tree.Rebuilt
import ClassScript.Tree.Pass
import Mathlib.Data.List.Forall2
/-!
# What a pass does to a tree

A logic says of an action what holds of the values it gives, from what is known before it to what
is known behind it. If the pieces of a pass keep a change of parts, each for the action that goes on
below, then the whole pass does (`Sound.stmts`): this is the one induction over the tree.
-/

namespace ClassScript

/-- Both of two actions have to succeed. -/
theorem bind_eq_ok {ε α β : Type} {x : Except ε α} {f : α → Except ε β} {b : β} :
    (x >>= f) = .ok b ↔ ∃ a, x = .ok a ∧ f a = .ok b := by
  cases x with
  | error e => exact ⟨nofun, fun ⟨_, h, _⟩ => nomatch h⟩
  | ok a => exact ⟨fun h => ⟨a, rfl, h⟩, fun ⟨_, ha, h⟩ => Except.ok.inj ha ▸ h⟩

/-- One of two actions fails. -/
theorem bind_eq_error {ε α β : Type} {x : Except ε α} {f : α → Except ε β} {e : ε} :
    (x >>= f) = .error e ↔ x = .error e ∨ ∃ a, x = .ok a ∧ f a = .error e := by
  cases x with
  | error e' => simp [bind, Except.bind]
  | ok a => simp [bind, Except.bind]

theorem mapError_eq_ok {ε ε' α : Type} {x : Except ε α} {f : ε → ε'} {a : α} :
    x.mapError f = .ok a ↔ x = .ok a := by
  cases x with
  | error e => exact ⟨nofun, nofun⟩
  | ok b => exact ⟨fun h => congrArg _ (Except.ok.inj h), fun h => congrArg _ (Except.ok.inj h)⟩

theorem toOption_eq_some {ε α : Type} {x : Except ε α} {a : α} : x.toOption = some a ↔ x = .ok a := by
  cases x <;> simp [Except.toOption]

theorem exists_ok_of_any {ε α : Type} {x : Except ε α} {p : α → Bool} (h : x.toOption.any p = true) :
    ∃ a, x = .ok a ∧ p a = true := by
  cases x with
  | error e => cases h
  | ok a => exact ⟨a, rfl, h⟩

/-- Statements about what actions give: `Gives k act Q` says that from `k`, `Q` holds of each value
that `act` gives and of what is known behind it. -/
structure Logic (m : Type → Type) [Monad m] (κ : Type) where
  Gives : {α : Type} → κ → m α → (α → κ → Prop) → Prop
  weaken : ∀ {α : Type} {k : κ} {act : m α} {P Q : α → κ → Prop},
    Gives k act P → (∀ a k', P a k' → Q a k') → Gives k act Q
  pure : ∀ {α : Type} {k : κ} {a : α} {Q : α → κ → Prop}, Q a k → Gives k (Pure.pure a) Q
  bind : ∀ {α β : Type} {k : κ} {act : m α} {f : α → m β} {P : α → κ → Prop} {Q : β → κ → Prop},
    Gives k act P → (∀ a k', P a k' → Gives k' (f a) Q) → Gives k (act >>= f) Q
  map : ∀ {α β : Type} {k : κ} {act : m α} {f : α → β} {P : α → κ → Prop} {Q : β → κ → Prop},
    Gives k act P → (∀ a k', P a k' → Q (f a) k') → Gives k (f <$> act) Q

namespace Logic

/-- Of what an action without effects gives. -/
def plain (κ : Type) : Logic Id κ where
  Gives k act Q := Q act k
  weaken h hQ := hQ _ _ h
  pure h := h
  bind h hf := hf _ _ h
  map h hf := hf _ _ h

/-- Of what an action gives if it does not fail. -/
def unlessFailed (ε κ : Type) : Logic (Except ε) κ where
  Gives k act Q := ∀ a, act = .ok a → Q a k
  weaken h hQ a ha := hQ _ _ (h a ha)
  pure h a ha := Except.ok.inj ha ▸ h
  bind h hf b hb := by
    obtain ⟨a, ha, hb⟩ := bind_eq_ok.1 hb
    exact hf a _ (h a ha) b hb
  map {_ _ _ act _ _ _} h hf b hb := by
    cases act with
    | error e => cases hb
    | ok a => exact Except.ok.inj hb ▸ hf a _ (h a rfl)

/-- Of what an action gives in any state. -/
def anyState (σ κ : Type) : Logic (StateM σ) κ where
  Gives k act Q := ∀ s, Q (act.run s).1 k
  weaken h hQ s := hQ _ _ (h s)
  pure h _ := h
  bind h hf s := hf _ _ (h s) _
  map h hf s := hf _ _ (h s)

/-- Of what an action gives, from states and to states that what is known tells of. -/
def tracking {σ κ : Type} (Tells : κ → σ → Prop) : Logic (StateM σ) κ where
  Gives k act Q := ∀ s, Tells k s → ∃ k', Tells k' (act.run s).2 ∧ Q (act.run s).1 k'
  weaken h hQ s hs := (h s hs).imp fun _ ⟨hk', hP⟩ => ⟨hk', hQ _ _ hP⟩
  pure h _ hs := ⟨_, hs, h⟩
  bind h hf s hs := by
    obtain ⟨k₁, hk₁, hP⟩ := h s hs
    exact hf _ k₁ hP _ hk₁
  map h hf s hs := (h s hs).imp fun _ ⟨hk', hP⟩ => ⟨hk', hf _ _ hP⟩

/-- Of what a question to a state gives if it is answered; answered or not, it keeps a view of the
state. -/
def answered (ε κ : Type) {σ τ : Type} (view : σ → τ) : Logic (ExceptT ε (StateM σ)) κ where
  Gives k act Q := ∀ s, view (act.run.run s).2 = view s ∧ ∀ a, (act.run.run s).1 = .ok a → Q a k
  weaken h hQ s := ⟨(h s).1, fun a ha => hQ _ _ ((h s).2 a ha)⟩
  pure h _ := ⟨rfl, fun _ ha => Except.ok.inj ha ▸ h⟩
  bind {_ _ _ act f _ _} h hf s := by
    have hrun : (act >>= f).run.run s = (match act.run.run s with
      | (.ok a, s') => (f a).run.run s'
      | (.error e, s') => (.error e, s')) := by
      rw [ExceptT.run_bind, StateT.run_bind]
      rcases act.run.run s with ⟨_ | _, _⟩ <;> rfl
    obtain ⟨hview, hact⟩ := h s
    rw [hrun]
    rcases hs : act.run.run s with ⟨_ | a, s'⟩
    · rw [hs] at hview
      exact ⟨hview, nofun⟩
    · rw [hs] at hview hact
      obtain ⟨hview', hf⟩ := hf a _ (hact a rfl) s'
      exact ⟨hview'.trans hview, hf⟩
  map {_ _ _ act f _ _} h hf s := by
    have hrun : (f <$> act).run.run s = (f <$> (act.run.run s).1, (act.run.run s).2) := by
      rw [ExceptT.run_map, StateT.run_map]
      rcases act.run.run s with ⟨_ | _, _⟩ <;> rfl
    obtain ⟨hview, hact⟩ := h s
    rw [hrun]
    refine ⟨hview, fun b hb => ?_⟩
    cases ha : (act.run.run s).1 with
    | error e => rw [ha] at hb; cases hb
    | ok a => rw [ha] at hb; exact Except.ok.inj hb ▸ hf a _ (hact a ha)

/-- The place an action reads is what is known before it and behind it. -/
def reading {m : Type → Type} [Monad m] (ρ : Type) (L : Logic m Unit) : Logic (ReaderT ρ m) ρ where
  Gives k act Q := L.Gives () (act.run k) fun a _ => Q a k
  weaken h hQ := L.weaken h fun _ _ => hQ _ _
  pure h := L.pure h
  bind h hf := L.bind h fun _ _ => hf _ _
  map h hf := L.map h fun _ _ => hf _ _

theorem reading_gives {m : Type → Type} [Monad m] {ρ α : Type} {L : Logic m Unit} {k : ρ}
    {act : ReaderT ρ m α} {Q : α → ρ → Prop} :
    (reading ρ L).Gives k act Q ↔ L.Gives () (act.run k) fun a _ => Q a k := Iff.rfl

end Logic

/-! ## Items and elements -/

section Visits

variable {m : Type → Type} [Monad m] {κ : Type} (L : Logic m κ) (R : Change κ)

/-- The actions for an optional expression. -/
inductive Visits : Option Expr → Option (m Expr) → Prop
  | none : Visits none none
  | some {e act} : (∀ k, L.Gives k act (R.expr k e)) → Visits (some e) (some act)

/-- The actions for an array item. -/
inductive VisitsItem : ArrayItem → ItemVisit m → Prop
  | mk {key value byRef unpack keyAct valueAct} : Visits L R key keyAct →
      (∀ k, L.Gives k valueAct (R.expr k value)) →
      VisitsItem ⟨key, value, byRef, unpack⟩ ⟨⟨key, value, byRef, unpack⟩, keyAct, valueAct⟩

/-- The actions for an assignment to an element. -/
inductive VisitsStore : Expr → StoreVisit m → Prop
  | mk {p q a i v d array index value target} : (∀ k, L.Gives k array (R.expr k a)) →
      Visits L R i index → (∀ k, L.Gives k value (R.expr k v)) →
      (∀ k, L.Gives k target (R.expr k (.index q a i))) →
      VisitsStore (.assign p (.index q a i) v d) ⟨p, d, array, index, value, target⟩

variable {L R}

theorem Visits.held {e : Option Expr} {act : Option (m Expr)} (h : Visits L R e act) (k : κ) :
    L.Gives k (act.mapM fun x => x) (Held R.expr k e) := by
  cases h with
  | none => exact L.pure .none
  | some h => exact L.map (h k) fun _ _ => .some

theorem VisitsItem.inOrder {i : ArrayItem} {v : ItemVisit m} (h : VisitsItem L R i v) (k : κ) :
    L.Gives k v.inOrder (R.Item k i) := by
  cases h with
  | mk hk hv =>
    exact L.bind (hk.held k) fun _ k₁ hk' => L.bind (hv k₁) fun _ _ hv' => L.pure (.mk hk' hv')

/-- Visiting item by item; `acc` holds those behind, the last first. -/
theorem VisitsItem.loop {is : List ArrayItem} {vs : List (ItemVisit m)}
    (h : List.Forall₂ (VisitsItem L R) is vs) (acc : List ArrayItem) (k : κ) :
    L.Gives k (List.mapM.loop ItemVisit.inOrder vs acc) fun is' k' =>
      ∃ new, is' = acc.reverse ++ new ∧ Each R.Item k is new k' := by
  induction h generalizing acc k with
  | nil => exact L.pure ⟨[], (List.append_nil _).symm, .nil⟩
  | cons hi _ ih =>
    refine L.bind (hi.inOrder k) fun i' k₁ hi' => L.weaken (ih (i' :: acc) k₁) ?_
    rintro is' k' ⟨new, rfl, hnew⟩
    exact ⟨i' :: new, by simp, .cons hi' hnew⟩

theorem VisitsItem.mapM {is : List ArrayItem} {vs : List (ItemVisit m)}
    (h : List.Forall₂ (VisitsItem L R) is vs) (k : κ) :
    L.Gives k (vs.mapM ItemVisit.inOrder) (Each R.Item k is) :=
  L.weaken (VisitsItem.loop h [] k) fun _ _ ⟨_, heq, hnew⟩ => heq ▸ hnew

theorem VisitsStore.inOrder {e : Expr} {v : StoreVisit m} (h : VisitsStore L R e v) (k : κ) :
    L.Gives k v.inOrder fun e' k' => Rebuilt R k (.expr e) (.expr e') k' := by
  cases h with
  | mk _ _ hv ht =>
    exact L.bind (ht k) fun _ k₁ ht' => L.bind (hv k₁) fun _ _ hv' => L.pure (.assign ht' hv')

end Visits

/-! ## Sound passes -/

/-- Whether a pass goes on below an expression in source order; the others it is handed over as
actions. -/
def Expr.inOrder : Expr → Bool
  | .array .. => false
  | .assign _ (.index ..) _ _ => false
  | _ => true

/-- The obligations of a pass: what it does at each piece keeps `R`, given that what goes on below
rebuilds the piece. `B` is what becomes of an expression below; a pass that takes items and elements
in source order has `Rebuilt R` there. -/
structure Sound {m : Type → Type} [Monad m] {κ : Type} (L : Logic m κ) (pass : Pass m) (R : Change κ)
    (B : κ → Expr → Expr → κ → Prop) : Prop where
  below : ∀ {k e e' k'}, e.inOrder = true → Rebuilt R k (.expr e) (.expr e') k' → B k e e' k'
  array : ∀ {k p is vs}, List.Forall₂ (VisitsItem L R) is vs →
    L.Gives k (pass.array p vs) (B k (.array p is))
  store : ∀ {k e v}, VisitsStore L R e v → L.Gives k (pass.store v) (B k e)
  expr : ∀ {k e act}, (∀ k, L.Gives k act (B k e)) → L.Gives k (pass.expr e act) (R.expr k e)
  stmt : ∀ {k s act}, (∀ k, L.Gives k act fun s' k' => Rebuilt R k (.stmt s) (.stmt s') k') →
    L.Gives k (pass.stmt s act) fun ss k' => R k (.stmt s) (Part.stmts ss) k'
  param : ∀ {k p act}, (∀ k, L.Gives k act fun p' k' => Rebuilt R k (.param p) (.param p') k') →
    L.Gives k (pass.param p act) (R.param k p)
  closure : ∀ {k c act},
    (∀ k, L.Gives k act fun c' k' => Rebuilt R k (.closure c) (.closure c') k') →
    L.Gives k (pass.closure c act) (R.closure k c)
  clause : ∀ {k c act}, (∀ k, L.Gives k act fun c' k' => Rebuilt R k (.clause c) (.clause c') k') →
    L.Gives k (pass.clause c act) (R.clause k c)
  method : ∀ {k d act}, (∀ k, L.Gives k act fun d' k' => Rebuilt R k (.method d) (.method d') k') →
    L.Gives k (pass.method d act) (R.method k d)
  cls : ∀ {k c act}, (∀ k, L.Gives k act fun c' k' => Rebuilt R k (.cls c) (.cls c') k') →
    L.Gives k (pass.cls c act) (R.cls k c)
  iface : ∀ {k i act}, (∀ k, L.Gives k act fun i' k' => Rebuilt R k (.iface i) (.iface i') k') →
    L.Gives k (pass.iface i act) (R.iface k i)

set_option linter.unusedSectionVars false

namespace Sound

variable {m : Type → Type} [Monad m] {κ : Type} {L : Logic m κ} {pass : Pass m} {R : Change κ}
  {B : κ → Expr → Expr → κ → Prop} (h : Sound L pass R B)

include h

/-- At a piece with nothing below it. -/
theorem leafExpr {e : Expr} (ho : e.inOrder = true) (he : (Part.expr e).children = []) (k : κ) :
    L.Gives k (pass.expr e (Pure.pure e)) (R.expr k e) :=
  h.expr fun _ => L.pure (h.below ho (.leaf he))

@[inherit_doc leafExpr]
theorem leafStmt {s : Stmt} (hs : (Part.stmt s).children = []) (k : κ) :
    L.Gives k (pass.stmt s (Pure.pure s)) fun ss k' => R k (.stmt s) (Part.stmts ss) k' :=
  h.stmt fun _ => L.pure (.leaf hs)

mutual

theorem exprThrough : (e : Expr) → (k : κ) → L.Gives k (e.through pass) (R.expr k e)
  | .variable .., k => h.leafExpr rfl rfl k
  | .int .., k => h.leafExpr rfl rfl k
  | .float .., k => h.leafExpr rfl rfl k
  | .string .., k => h.leafExpr rfl rfl k
  | .bool .., k => h.leafExpr rfl rfl k
  | .null _, k => h.leafExpr rfl rfl k
  | .const .., k => h.leafExpr rfl rfl k
  | .anonymousClass _, k => h.leafExpr rfl rfl k
  | .dynamicVariable _ e, _ => h.expr fun k =>
    L.bind (exprThrough e k) fun _ _ he => L.pure (h.below rfl (.dynamicVariable he))
  | .array _ is, _ => h.expr fun _ => h.array (visitsItems is)
  | .index _ t d, _ => h.expr fun k =>
    L.bind (exprThrough t k) fun _ k₁ ht =>
    L.bind (optionThrough d k₁) fun _ _ hd => L.pure (h.below rfl (.index ht hd))
  | .property _ o n _, _ => h.expr fun k =>
    L.bind (exprThrough o k) fun _ k₁ ho =>
    L.bind (memberNameThrough n k₁) fun _ _ hn => L.pure (h.below rfl (.property ho hn))
  | .methodCall _ o n as _, _ => h.expr fun k =>
    L.bind (exprThrough o k) fun _ k₁ ho =>
    L.bind (memberNameThrough n k₁) fun _ k₂ hn =>
    L.bind (argsThrough as k₂) fun _ _ has => L.pure (h.below rfl (.methodCall ho hn has))
  | .staticCall _ c n as, _ => h.expr fun k =>
    L.bind (classRefThrough c k) fun _ k₁ hc =>
    L.bind (memberNameThrough n k₁) fun _ k₂ hn =>
    L.bind (argsThrough as k₂) fun _ _ has => L.pure (h.below rfl (.staticCall hc hn has))
  | .staticProperty _ c _, _ => h.expr fun k =>
    L.bind (classRefThrough c k) fun _ _ hc => L.pure (h.below rfl (.staticProperty hc))
  | .classConst _ c _, _ => h.expr fun k =>
    L.bind (classRefThrough c k) fun _ _ hc => L.pure (h.below rfl (.classConst hc))
  | .call _ c as, _ => h.expr fun k =>
    L.bind (calleeThrough c k) fun _ k₁ hc =>
    L.bind (argsThrough as k₁) fun _ _ has => L.pure (h.below rfl (.call hc has))
  | .new _ c as, _ => h.expr fun k =>
    L.bind (classRefThrough c k) fun _ k₁ hc =>
    L.bind (argsThrough as k₁) fun _ _ has => L.pure (h.below rfl (.new hc has))
  | .assign p t v d, _ => by
    have ht := exprThrough t
    have hv := exprThrough v
    cases t with
    | index q a i =>
      have ha := exprThrough a
      have hi := visitsIndex i
      have htarget (k : κ) : L.Gives k _ (R.expr k (.index q a i)) := h.expr fun k =>
        L.bind (ha k) fun _ k₁ ha' =>
        L.bind (hi.held k₁) fun _ _ hi' => L.pure (h.below rfl (.index ha' hi'))
      exact h.expr fun _ => h.store (.mk ha hi hv htarget)
    | _ =>
      exact h.expr fun k =>
        L.bind (ht k) fun _ k₁ ht' =>
        L.bind (hv k₁) fun _ _ hv' => L.pure (h.below rfl (.assign ht' hv'))
  | .assignOp _ _ t v, _ => h.expr fun k =>
    L.bind (exprThrough t k) fun _ k₁ ht =>
    L.bind (exprThrough v k₁) fun _ _ hv => L.pure (h.below rfl (.assignOp ht hv))
  | .step _ _ t, _ => h.expr fun k =>
    L.bind (exprThrough t k) fun _ _ ht => L.pure (h.below rfl (.step ht))
  | .binary _ _ l r, _ => h.expr fun k =>
    L.bind (exprThrough l k) fun _ k₁ hl =>
    L.bind (exprThrough r k₁) fun _ _ hr => L.pure (h.below rfl (.binary hl hr))
  | .unary _ _ e, _ => h.expr fun k =>
    L.bind (exprThrough e k) fun _ _ he => L.pure (h.below rfl (.unary he))
  | .ternary _ c t o, _ => h.expr fun k =>
    L.bind (exprThrough c k) fun _ k₁ hc =>
    L.bind (optionThrough t k₁) fun _ k₂ ht =>
    L.bind (exprThrough o k₂) fun _ _ ho => L.pure (h.below rfl (.ternary hc ht ho))
  | .instanceOf _ v c, _ => h.expr fun k =>
    L.bind (exprThrough v k) fun _ k₁ hv =>
    L.bind (classRefThrough c k₁) fun _ _ hc => L.pure (h.below rfl (.instanceOf hv hc))
  | .cast _ _ e, _ => h.expr fun k =>
    L.bind (exprThrough e k) fun _ _ he => L.pure (h.below rfl (.cast he))
  | .isset _ es, _ => h.expr fun k =>
    L.bind (exprsThrough es k) fun _ _ hes => L.pure (h.below rfl (.isset hes))
  | .closure _ c, _ => h.expr fun k =>
    L.bind (closureThrough c k) fun _ _ hc => L.pure (h.below rfl (.function hc))

theorem memberNameThrough : (n : MemberName) → (k : κ) →
    L.Gives k (n.through pass) (R.MemberName k n)
  | .ident _, _ => L.pure .ident
  | .dynamic e, k => L.bind (exprThrough e k) fun _ _ he => L.pure (.dynamic he)

theorem classRefThrough : (c : ClassRef) → (k : κ) → L.Gives k (c.through pass) (R.ClassRef k c)
  | .named _, _ => L.pure (.fixed rfl)
  | .self, _ => L.pure (.fixed rfl)
  | .parent, _ => L.pure (.fixed rfl)
  | .static, _ => L.pure (.fixed rfl)
  | .dynamic e, k => L.bind (exprThrough e k) fun _ _ he => L.pure (.dynamic he)

theorem calleeThrough : (c : Callee) → (k : κ) → L.Gives k (c.through pass) (R.Callee k c)
  | .named _, _ => L.pure .named
  | .dynamic e, k => L.bind (exprThrough e k) fun _ _ he => L.pure (.dynamic he)

theorem argsThrough : (as : List Arg) → (k : κ) →
    L.Gives k (ClassScript.argsThrough pass as) (Each R.Arg k as)
  | [], _ => L.pure .nil
  | ⟨v, _⟩ :: rest, k => L.bind (exprThrough v k) fun _ k₁ hv =>
    L.bind (argsThrough rest k₁) fun _ _ hrest => L.pure (.cons (.mk hv) hrest)

theorem visitsItems : (is : List ArrayItem) → List.Forall₂ (VisitsItem L R) is (itemVisits pass is)
  | [] => .nil
  | ⟨k, v, _, _⟩ :: rest => .cons (.mk (visitsIndex k) (exprThrough v)) (visitsItems rest)

theorem visitsIndex : (i : Option Expr) → Visits L R i (indexVisit pass i)
  | none => .none
  | some e => .some (exprThrough e)

theorem optionThrough : (e : Option Expr) → (k : κ) →
    L.Gives k (ClassScript.optionThrough pass e) (Held R.expr k e)
  | none, _ => L.pure .none
  | some e, k => L.bind (exprThrough e k) fun _ _ he => L.pure (.some he)

theorem exprsThrough : (es : List Expr) → (k : κ) →
    L.Gives k (ClassScript.exprsThrough pass es) (Each R.expr k es)
  | [], _ => L.pure .nil
  | e :: rest, k => L.bind (exprThrough e k) fun _ k₁ he =>
    L.bind (exprsThrough rest k₁) fun _ _ hrest => L.pure (.cons he hrest)

theorem paramThrough : (p : Param) → (k : κ) → L.Gives k (p.through pass) (R.param k p)
  | ⟨_, _, d, _, _, _, _⟩, _ => h.param fun k =>
    L.bind (optionThrough d k) fun _ _ hd => L.pure (.param hd)

theorem paramsThrough : (ps : List Param) → (k : κ) →
    L.Gives k (ClassScript.paramsThrough pass ps) (Each R.param k ps)
  | [], _ => L.pure .nil
  | p :: rest, k => L.bind (paramThrough p k) fun _ k₁ hp =>
    L.bind (paramsThrough rest k₁) fun _ _ hrest => L.pure (.cons hp hrest)

theorem closureThrough : (c : Closure) → (k : κ) → L.Gives k (c.through pass) (R.closure k c)
  | ⟨ps, _, b, _, _, _⟩, _ => h.closure fun k =>
    L.bind (paramsThrough ps k) fun _ k₁ hps =>
    L.bind (stmts b k₁) fun _ _ hb => L.pure (.closure hps hb)

/-- What becomes of statements. -/
theorem stmts : (ss : List Stmt) → (k : κ) → L.Gives k (stmtsThrough pass ss) (R.Stmts k ss)
  | [], _ => L.pure .nil
  | s :: rest, k => L.bind (stmtThrough s k) fun _ k₁ hs =>
    L.bind (stmts rest k₁) fun _ _ hrest => L.pure (.cons hs hrest)

theorem bodyThrough : (b : Option (List Stmt)) → (k : κ) →
    L.Gives k (ClassScript.bodyThrough pass b) (Held R.Stmts k b)
  | none, _ => L.pure .none
  | some b, k => L.bind (stmts b k) fun _ _ hb => L.pure (.some hb)

theorem elseIfsThrough : (bs : List ElseIf) → (k : κ) →
    L.Gives k (ClassScript.elseIfsThrough pass bs) (Each R.ElseIf k bs)
  | [], _ => L.pure .nil
  | ⟨c, b⟩ :: rest, k => L.bind (exprThrough c k) fun _ k₁ hc =>
    L.bind (stmts b k₁) fun _ k₂ hb =>
    L.bind (elseIfsThrough rest k₂) fun _ _ hrest => L.pure (.cons (.mk hc hb) hrest)

theorem clauseThrough : (c : Catch) → (k : κ) → L.Gives k (c.through pass) (R.clause k c)
  | ⟨_, _, b, _⟩, _ => h.clause fun k => L.bind (stmts b k) fun _ _ hb => L.pure (.clause hb)

theorem clausesThrough : (cs : List Catch) → (k : κ) →
    L.Gives k (catchesThrough pass cs) (Each R.clause k cs)
  | [], _ => L.pure .nil
  | c :: rest, k => L.bind (clauseThrough c k) fun _ k₁ hc =>
    L.bind (clausesThrough rest k₁) fun _ _ hrest => L.pure (.cons hc hrest)

theorem stmtThrough : (s : Stmt) → (k : κ) →
    L.Gives k (s.through pass) fun ss k' => R k (.stmt s) (Part.stmts ss) k'
  | .expression e, _ => h.stmt fun k =>
    L.bind (exprThrough e k) fun _ _ he => L.pure (.expression he)
  | .echo _ es, _ => h.stmt fun k => L.bind (exprsThrough es k) fun _ _ hes => L.pure (.echo hes)
  | .ret _ v, _ => h.stmt fun k => L.bind (optionThrough v k) fun _ _ hv => L.pure (.ret hv)
  | .branch _ c t ei o, _ => h.stmt fun k =>
    L.bind (exprThrough c k) fun _ k₁ hc =>
    L.bind (stmts t k₁) fun _ k₂ ht =>
    L.bind (elseIfsThrough ei k₂) fun _ k₃ hei =>
    L.bind (bodyThrough o k₃) fun _ _ ho => L.pure (.branch hc ht hei ho)
  | .whileLoop _ c b, _ => h.stmt fun k =>
    L.bind (exprThrough c k) fun _ k₁ hc =>
    L.bind (stmts b k₁) fun _ _ hb => L.pure (.whileLoop hc hb)
  | .forLoop _ i c s b, _ => h.stmt fun k =>
    L.bind (exprsThrough i k) fun _ k₁ hi =>
    L.bind (exprsThrough c k₁) fun _ k₂ hc =>
    L.bind (exprsThrough s k₂) fun _ k₃ hs =>
    L.bind (stmts b k₃) fun _ _ hb => L.pure (.forLoop hi hc hs hb)
  | .foreach _ s key v _ b, _ => h.stmt fun k =>
    L.bind (exprThrough s k) fun _ k₁ hs =>
    L.bind (optionThrough key k₁) fun _ k₂ hkey =>
    L.bind (exprThrough v k₂) fun _ k₃ hv =>
    L.bind (stmts b k₃) fun _ _ hb => L.pure (.foreach hs hkey hv hb)
  | .breakLoop _, k => h.leafStmt rfl k
  | .continueLoop _, k => h.leafStmt rfl k
  | .throwValue _ v, _ => h.stmt fun k =>
    L.bind (exprThrough v k) fun _ _ hv => L.pure (.throwValue hv)
  | .tryCatch _ b cs f, _ => h.stmt fun k =>
    L.bind (stmts b k) fun _ k₁ hb =>
    L.bind (clausesThrough cs k₁) fun _ k₂ hcs =>
    L.bind (bodyThrough f k₂) fun _ _ hf => L.pure (.tryCatch hb hcs hf)
  | .block _ b, _ => h.stmt fun k => L.bind (stmts b k) fun _ _ hb => L.pure (.block hb)
  | .nsBlock _ _ b _, _ => h.stmt fun k => L.bind (stmts b k) fun _ _ hb => L.pure (.nsBlock hb)
  | .imports .., k => h.leafStmt rfl k
  | .classDecl c, _ => h.stmt fun k => L.bind (classThrough c k) fun _ _ hc => L.pure (.classDecl hc)
  | .interfaceDecl i, _ => h.stmt fun k =>
    L.bind (interfaceThrough i k) fun _ _ hi => L.pure (.interfaceDecl hi)
  | .functionDecl .., k => h.leafStmt rfl k
  | .nop _, k => h.leafStmt rfl k

theorem methodThrough : (d : Method) → (k : κ) → L.Gives k (d.through pass) (R.method k d)
  | ⟨_, ps, b, _, _, _, _⟩, _ => h.method fun k =>
    L.bind (paramsThrough ps k) fun _ k₁ hps =>
    L.bind (bodyThrough b k₁) fun _ _ hb => L.pure (.method hps hb)

theorem membersThrough : (ms : List Member) → (k : κ) →
    L.Gives k (ClassScript.membersThrough pass ms) (Each R.Member k ms)
  | [], _ => L.pure .nil
  | .property ⟨_, d, _, _, _⟩ :: rest, k => L.bind (optionThrough d k) fun _ k₁ hd =>
    L.bind (membersThrough rest k₁) fun _ _ hrest => L.pure (.cons (.property hd) hrest)
  | .const ⟨_, v, _, _, _⟩ :: rest, k => L.bind (exprThrough v k) fun _ k₁ hv =>
    L.bind (membersThrough rest k₁) fun _ _ hrest => L.pure (.cons (.const hv) hrest)
  | .method d :: rest, k => L.bind (methodThrough d k) fun _ k₁ hd =>
    L.bind (membersThrough rest k₁) fun _ _ hrest => L.pure (.cons (.method hd) hrest)
  | .traitUse _ :: rest, k =>
    L.bind (membersThrough rest k) fun _ _ hrest => L.pure (.cons .traitUse hrest)

theorem classThrough : (c : Class) → (k : κ) → L.Gives k (c.through pass) (R.cls k c)
  | ⟨_, _, _, ms, _, _, _, _, _⟩, _ => h.cls fun k =>
    L.bind (membersThrough ms k) fun _ _ hms => L.pure (.cls hms)

theorem interfaceMembersThrough : (ms : List Member) → (k : κ) →
    L.Gives k (ClassScript.interfaceMembersThrough pass ms) (Each R.InterfaceMember k ms)
  | [], _ => L.pure .nil
  | .const ⟨_, v, _, _, _⟩ :: rest, k => L.bind (exprThrough v k) fun _ k₁ hv =>
    L.bind (interfaceMembersThrough rest k₁) fun _ _ hrest => L.pure (.cons (.other rfl (.const hv)) hrest)
  | .method d :: rest, k => L.bind (methodThrough d k) fun _ k₁ hd =>
    L.bind (interfaceMembersThrough rest k₁) fun _ _ hrest => L.pure (.cons (.other rfl (.method hd)) hrest)
  | .property _ :: rest, k =>
    L.bind (interfaceMembersThrough rest k) fun _ _ hrest => L.pure (.cons .property hrest)
  | .traitUse _ :: rest, k =>
    L.bind (interfaceMembersThrough rest k) fun _ _ hrest => L.pure (.cons (.other rfl .traitUse) hrest)

theorem interfaceThrough : (i : Interface) → (k : κ) → L.Gives k (i.through pass) (R.iface k i)
  | ⟨_, _, ms, _, _⟩, _ => h.iface fun k =>
    L.bind (interfaceMembersThrough ms k) fun _ _ hms => L.pure (.iface hms)

end

end Sound

end ClassScript
