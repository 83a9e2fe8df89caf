import ClassScript.Emit.Emission
/-!
# Executing emitted statements

What blocks, branches and the handling of thrown values do when they are executed. A `Host` says the rest:
what states and values are, which other conditions hold, and what other statements do.
-/

namespace ClassScript.Emit

open Script

/-! ## How statements end -/

/-- The ways to leave a loop or a function. -/
inductive Jump (α : Type) where
  | breakLoop
  | continueLoop
  | ret (value : Option α)

/-- What the execution of a statement comes to. -/
inductive Outcome (σ α : Type) where
  | normal (state : σ)
  | thrown (value : α) (state : σ)
  | jumped (jump : Jump α) (state : σ)
  | endless

namespace Outcome

variable {σ α : Type}

/-- What comes behind a normal end. -/
def next (o : Outcome σ α) (rest : σ → Outcome σ α) : Outcome σ α :=
  match o with
  | normal s => rest s
  | o => o

/-- A thrown value goes to the handler. -/
def handled (o : Outcome σ α) (handler : α → σ → Outcome σ α) : Outcome σ α :=
  match o with
  | thrown v s => handler v s
  | o => o

/-- A cleanup is executed at any end. If it ends normally, the end before it counts. -/
def cleaned (o : Outcome σ α) (cleanup : σ → Outcome σ α) : Outcome σ α :=
  match o with
  | normal s => cleanup s
  | thrown v s => (cleanup s).next (thrown v)
  | jumped j s => (cleanup s).next (jumped j)
  | endless => endless

def mapState (o : Outcome σ α) (f : σ → σ) : Outcome σ α :=
  match o with
  | normal s => normal (f s)
  | thrown v s => thrown v (f s)
  | jumped j s => jumped j (f s)
  | endless => endless

end Outcome

/-! ## What statements do -/

/-- What the execution of a script rests on, with states `σ` and values `α`. -/
structure Host (σ α : Type) where
  /-- The value of a variable. -/
  get : String → σ → α
  /-- A variable gets a value. -/
  set : String → α → σ → σ
  /-- The scope of a handler begins, with the variable for the caught value. -/
  enter : String → α → σ → σ
  /-- The scope of a handler ends. -/
  leave : σ → σ
  /-- Whether a value has a class, which a name in quotes or a path stands for. -/
  hasClass : Node → α → Bool
  /-- Whether any other condition holds, and the state behind it. -/
  test : Node → σ → Bool × σ
  /-- What any other statement does. -/
  exec : Node → σ → Outcome σ α
  get_enter : ∀ x v s, get x (enter x v s) = v

namespace Host

variable {σ α : Type} (h : Host σ α)

/-- Whether a condition holds, and the state behind it. Of two conditions, the right one is evaluated if the
left one does not hold. An instance check of a variable only looks at its value. -/
def truth : Node → σ → Bool × σ
  | .binary .or l r, s => match truth l s with
    | (true, s₁) => (true, s₁)
    | (false, s₁) => truth r s₁
  | .binary .instanceOf (.identifier x) cls, s => (h.hasClass cls (h.get x s), s)
  | .call (.identifier f) [.identifier x, cls], s =>
    if f = instanceCheckName then (h.hasClass cls (h.get x s), s)
    else h.test (.call (.identifier f) [.identifier x, cls]) s
  | n, s => h.test n s

mutual

/-- What a statement does. -/
def run : Node → σ → Outcome σ α
  | .block ss, s => runAll ss s
  | .branch c t o, s => match h.truth c s with
    | (true, s₁) => run t s₁
    | (false, s₁) => runOption o s₁
  | .tryCatch b hd f, s => ((run b s).handled (runHandler hd)).cleaned (runOption f)
  | .throwValue (.identifier x), s => .thrown (h.get x s) s
  | .declare x (some (.identifier y)), s => .normal (h.set x (h.get y s) s)
  | n, s => h.exec n s

/-- What a handler does with a thrown value. -/
def runHandler : Option Handler → α → σ → Outcome σ α
  | none, v, s => .thrown v s
  | some ⟨x, b⟩, v, s => (run b (h.enter x v s)).mapState h.leave

def runOption : Option Node → σ → Outcome σ α
  | none, s => .normal s
  | some n, s => run n s

/-- What statements do, one after the other. -/
def runAll : List Node → σ → Outcome σ α
  | [], s => .normal s
  | n :: ns, s => (run n s).next (runAll ns)

end

end Host

end ClassScript.Emit
