import ClassScript.Emit.Body
import ClassScript.Proofs.Emit.Execution
import ClassScript.Proofs.Emit.Safe
import ClassScript.Proofs.Emit.Keeps
import ClassScript.Proofs.Script.Made
import ClassScript.Proofs.Tree.Signature
/-!
# The first match counts

A conditional statement is emitted as branches inside each other, and so are the clauses that catch thrown
values. Executed, they do what the first clause says whose condition holds, or that has a type of the thrown
value (`first_match_wins`).
-/

namespace ClassScript.Emit

open Script

variable {σ α : Type}

/-! ## Chains of branches -/

namespace Host

variable (h : Host σ α)

/-- The tests fail, one after the other. -/
inductive Fails : List Node → σ → σ → Prop where
  | nil {s : σ} : Fails [] s s
  | cons {test : Node} {tests : List Node} {s s₁ s₂ : σ} (htest : h.truth test s = (false, s₁))
    (htests : Fails tests s₁ s₂) : Fails (test :: tests) s s₂

/-- Of clauses, given by tests and bodies, the first one is chosen whose test holds, and none if all tests fail.
The last state is the one behind the tests. -/
def Chooses (clauses : List (Node × List Node)) (s : σ) (choice : Option (List Node)) (s₁ : σ) : Prop :=
  match choice with
  | some body => ∃ before test behind s₀, clauses = before ++ (test, body) :: behind ∧
      h.Fails (before.map Prod.fst) s s₀ ∧ h.truth test s₀ = (true, s₁)
  | none => h.Fails (clauses.map Prod.fst) s s₁

variable {h} {clauses : List (Node × List Node)} {test : Node} {body : List Node} {ending o : Option Node}

theorem chooses_nil {s s₁ : σ} {choice : Option (List Node)} : h.Chooses [] s choice s₁ ↔ choice = none ∧ s = s₁ := by
  constructor
  · intro hchoice
    cases choice with
    | none =>
      cases hchoice
      exact ⟨rfl, rfl⟩
    | some body =>
      obtain ⟨before, _, _, _, hclauses, -⟩ := hchoice
      simp at hclauses
  · rintro ⟨rfl, rfl⟩
    exact Fails.nil

/-- The first clause is chosen, or it is passed over. -/
theorem chooses_cons {s s₂ : σ} {choice : Option (List Node)} : h.Chooses ((test, body) :: clauses) s choice s₂ ↔
    (h.truth test s = (true, s₂) ∧ choice = some body) ∨
      ∃ s₁, h.truth test s = (false, s₁) ∧ h.Chooses clauses s₁ choice s₂ := by
  constructor
  · intro hchoice
    cases choice with
    | none =>
      obtain ⟨⟩ | ⟨htest, htests⟩ := hchoice
      exact .inr ⟨_, htest, htests⟩
    | some chosen =>
      obtain ⟨before, found, behind, s₀, hclauses, hbefore, hfound⟩ := hchoice
      -- either nothing stands before the chosen clause, or the first clause does
      cases before with
      | nil =>
        cases hbefore
        cases hclauses
        exact .inl ⟨hfound, rfl⟩
      | cons clause before =>
        obtain ⟨⟩ | ⟨htest, htests⟩ := hbefore
        cases hclauses
        exact .inr ⟨_, htest, before, found, behind, s₀, rfl, htests, hfound⟩
  · rintro (⟨htest, rfl⟩ | ⟨s₁, htest, hchoice⟩)
    · exact ⟨[], test, clauses, s, rfl, .nil, htest⟩
    · cases choice with
      | none => exact Fails.cons htest hchoice
      | some chosen =>
        obtain ⟨before, found, behind, s₀, rfl, hbefore, hfound⟩ := hchoice
        exact ⟨(test, body) :: before, found, behind, s₀, rfl, .cons htest hbefore, hfound⟩

variable (h) in
theorem exists_chooses (clauses : List (Node × List Node)) (s : σ) : ∃ choice s₁, h.Chooses clauses s choice s₁ := by
  induction clauses generalizing s with
  | nil => exact ⟨none, s, chooses_nil.2 ⟨rfl, rfl⟩⟩
  | cons clause clauses ih =>
    rcases htest : h.truth clause.1 s with ⟨_ | _, s₁⟩
    · obtain ⟨choice, s₂, hchoice⟩ := ih s₁
      exact ⟨choice, s₂, chooses_cons.2 (.inr ⟨s₁, htest, hchoice⟩)⟩
    · exact ⟨some clause.2, s₁, chooses_cons.2 (.inl ⟨htest, rfl⟩)⟩

/-- What the first test of a chain decides. -/
theorem runOption_branches_cons (hmade : branches ((test, body) :: clauses) ending = .ok o) :
    ∃ rest, branches clauses ending = .ok rest ∧ ∀ {s s₁ : σ},
      (h.truth test s = (true, s₁) → h.runOption o s = h.runAll body s₁) ∧
      (h.truth test s = (false, s₁) → h.runOption o s = h.runOption rest s₁) := by
  obtain ⟨rest, hrest, hmade⟩ := bind_eq_ok.1 hmade
  obtain ⟨n, hn, hmade⟩ := bind_eq_ok.1 hmade
  obtain rfl := ok_eq_ok.1 hmade
  obtain ⟨-, -, -, rfl⟩ := branch_eq_ok.1 hn
  refine ⟨rest, hrest, fun {s s₁} => ⟨fun htest => ?_, fun htest => ?_⟩⟩
  · rw [runOption, run, htest]
    rfl
  · rw [runOption, run, htest]

/-- A chain executes the chosen body, or else its end. -/
theorem runOption_branches (hmade : branches clauses ending = .ok o) {s s₁ : σ} {choice : Option (List Node)}
    (hchoice : h.Chooses clauses s choice s₁) :
    h.runOption o s = (choice.map (h.runAll · s₁)).getD (h.runOption ending s₁) := by
  induction clauses generalizing o s with
  | nil =>
    obtain rfl := ok_eq_ok.1 hmade
    obtain ⟨rfl, rfl⟩ := chooses_nil.1 hchoice
    rfl
  | cons clause clauses ih =>
    obtain ⟨rest, hrest, hstep⟩ := runOption_branches_cons (h := h) hmade
    obtain ⟨htest, rfl⟩ | ⟨s₂, htest, hchoice⟩ := chooses_cons.1 hchoice
    · exact hstep.1 htest
    · exact (hstep.2 htest).trans (ih hrest hchoice)

/-! ## Instance checks -/

variable (h) in
/-- Whether a value has the class of a name, in the program or in the host. -/
def hasType (t : Name) (v : α) : Bool :=
  match nativePath? t with
  | some (.ok path) => h.hasClass path v
  | some (.error _) => false
  | none => h.hasClass (.string t.joined) v

theorem truth_instanceCheck {x : String} {t : Name} {n : Node} (hn : instanceCheck (.identifier x) t = .ok n) (s : σ) :
    h.truth n s = (h.hasType t (h.get x s), s) := by
  unfold instanceCheck at hn
  unfold hasType
  split at hn
  · next native hnative =>
    obtain ⟨path, hpath, hn⟩ := bind_eq_ok.1 hn
    obtain ⟨op, hop, -, -, rfl⟩ := binary_eq_ok.1 hn
    cases hop
    rw [hnative, hpath]
    rfl
  · next hnative =>
    obtain ⟨f, hf, hn⟩ := bind_eq_ok.1 hn
    obtain ⟨-, rfl⟩ := ident_eq_ok.1 hf
    obtain ⟨-, -, rfl⟩ := call_eq_ok.1 hn
    rw [hnative, truth, if_pos rfl]

/-- Of conditions that change nothing, joined from the left, one has to hold. -/
theorem truth_foldlM_or {p : Name → Bool} {types : List Name} {tests : List Node} {s : σ}
    (htests : List.Forall₂ (fun t test => h.truth test s = (p t, s)) types tests) {first n : Node} {holds : Bool}
    (hfirst : h.truth first s = (holds, s)) (hn : tests.foldlM (binary "||") first = .ok n) :
    h.truth n s = (holds || types.any p, s) := by
  induction htests generalizing first holds with
  | nil =>
    obtain rfl := ok_eq_ok.1 hn
    simpa using hfirst
  | @cons t test types tests htest _ ih =>
    obtain ⟨both, hboth, hn⟩ := bind_eq_ok.1 hn
    obtain ⟨op, hop, -, -, rfl⟩ := binary_eq_ok.1 hboth
    cases hop
    have hboth : h.truth (.binary .or first test) s = (holds || p t, s) := by
      rw [truth, hfirst]
      -- the right operand counts only if the left one fails
      cases holds with
      | true => rfl
      | false => exact htest
    rw [ih hboth hn, List.any_cons, Bool.or_assoc]

/-! ## Catch clauses -/

variable (h)

/-- A clause takes values that have one of its types. -/
def takes (v : α) (c : Catch) : Bool := c.types.any (h.hasType · v)

/-- The variable of a clause gets the caught value, if there is a variable. -/
def bind (var : String) (v : α) (s : σ) : σ := if var.isEmpty then s else h.set (mangle var) v s

/-- What is done with a caught value: the first clause that takes it is executed. If no clause does, it is thrown
again. -/
def dispatch (clauses : List (Catch × List Node)) (v : α) (s : σ) : Outcome σ α :=
  match clauses.find? fun clause => h.takes v clause.1 with
  | some (c, body) => h.runAll body (h.bind c.var v s)
  | none => .thrown v s

end Host

/-- The test and the body that are emitted for a catch clause, which comes with the statements of its own body. -/
structure Catches (clause : Catch × List Node) (emitted : Node × List Node) : Prop where
  test : ∃ tests, catchTests clause.1.types = .ok tests ∧ chain "||" tests = .ok emitted.1
  body : ∃ binding, catchBinding clause.1.var = .ok binding ∧ emitted.2 = binding ++ clause.2

namespace Catches

variable {h : Host σ α} {clause : Catch × List Node} {emitted : Node × List Node} {v : α} {s : σ}

theorem truth (hc : Catches clause emitted) (hs : h.get exceptionName s = v) :
    h.truth emitted.1 s = (h.takes v clause.1, s) := by
  obtain ⟨tests, htests, hchain⟩ := hc.test
  have hchecks : List.Forall₂ (fun t test => h.truth test s = (h.hasType t v, s)) clause.1.types tests := by
    refine (forall₂_of_mapM htests).imp fun t test htest => ?_
    obtain ⟨x, hx, htest⟩ := bind_eq_ok.1 htest
    obtain ⟨-, rfl⟩ := ident_eq_ok.1 hx
    rw [Host.truth_instanceCheck htest, hs]
  unfold Host.takes
  generalize clause.1.types = types at hchecks
  -- without types there would be no chain of tests
  cases hchecks with
  | nil => cases hchain
  | cons hfirst hrest => exact Host.truth_foldlM_or hrest hfirst hchain

theorem runAll (hc : Catches clause emitted) (hs : h.get exceptionName s = v) :
    h.runAll emitted.2 s = h.runAll clause.2 (h.bind clause.1.var v s) := by
  obtain ⟨binding, hbinding, hbody⟩ := hc.body
  unfold catchBinding at hbinding
  unfold Host.bind
  rw [hbody]
  split at hbinding
  · next hvar =>
    obtain rfl := ok_eq_ok.1 hbinding
    rw [if_pos hvar]
    rfl
  · next hvar =>
    obtain ⟨x, hx, hbinding⟩ := bind_eq_ok.1 hbinding
    obtain ⟨-, rfl⟩ := ident_eq_ok.1 hx
    obtain ⟨n, hn, hbinding⟩ := bind_eq_ok.1 hbinding
    obtain ⟨-, -, rfl⟩ := declare_eq_ok.1 hn
    obtain rfl := ok_eq_ok.1 hbinding
    rw [if_neg hvar, ← hs]
    rfl

end Catches

namespace Host

variable {h : Host σ α} {clauses : List (Catch × List Node)} {emitted : List (Node × List Node)} {v : α} {s : σ}

/-- The first clause that takes a value is the first one whose test holds. -/
theorem runOption_clauses (hc : List.Forall₂ Catches clauses emitted) {ending o : Option Node}
    (hmade : branches emitted ending = .ok o) (hs : h.get exceptionName s = v)
    (hending : h.runOption ending s = .thrown v s) : h.runOption o s = h.dispatch clauses v s := by
  induction hc generalizing o with
  | nil =>
    obtain rfl := ok_eq_ok.1 hmade
    exact hending
  | @cons clause test _ _ hclause _ ih =>
    obtain ⟨rest, hrest, hstep⟩ := runOption_branches_cons (h := h) hmade
    have htest := hclause.truth hs
    cases htakes : h.takes v clause.1 with
    | true => rw [hstep.1 (htakes ▸ htest), hclause.runAll hs, dispatch, List.find?_cons, htakes]
    | false => rw [hstep.2 (htakes ▸ htest), ih hrest, dispatch, dispatch, List.find?_cons, htakes]

theorem runOption_block (stmts : Option (List Node)) (s : σ) :
    h.runOption (stmts.map .block) s = h.runAll (stmts.getD []) s := by
  cases stmts <;> rfl

theorem runAll_toList (o : Option Node) (s : σ) : h.runAll o.toList s = h.runOption o s := by
  cases o with
  | none => rfl
  | some n =>
    show (h.run n s).next .normal = h.run n s
    cases h.run n s <;> rfl

theorem runAll_handlerOf (hc : List.Forall₂ Catches clauses emitted) {stmts : List Node}
    (hmade : handlerOf emitted = .ok stmts) (hs : h.get exceptionName s = v) :
    h.runAll stmts s = h.dispatch clauses v s := by
  obtain ⟨x, hx, hmade⟩ := bind_eq_ok.1 hmade
  obtain ⟨-, rfl⟩ := ident_eq_ok.1 hx
  obtain ⟨n, hn, hmade⟩ := bind_eq_ok.1 hmade
  obtain ⟨-, rfl⟩ := throwValue_eq_ok.1 hn
  obtain ⟨-, hmade⟩ := block_bind.1 hmade
  obtain ⟨o, ho, hmade⟩ := bind_eq_ok.1 hmade
  obtain rfl := ok_eq_ok.1 hmade
  rw [runAll_toList]
  exact runOption_clauses hc ho hs (by rw [← hs]; rfl)

end Host

/-! ## What is emitted -/

variable (ctx : Context)

/-- What a condition and the statements under it are emitted as. -/
def emitClause (e : ElseIf) : Emission (Node × List Node) := do
  let test ← emitExpr ctx e.test
  return (test, ← emitStmts ctx e.body)

theorem emitElseIfs_eq_mapM (es : List ElseIf) : emitElseIfs ctx es = es.mapM (emitClause ctx) := by
  induction es with
  | nil => rfl
  | cons e es ih =>
    obtain ⟨test, body⟩ := e
    rw [List.mapM_cons, ← ih]
    simp only [emitClause, bind_assoc, pure_bind]
    rfl

/-- A catch clause with what its statements are emitted as. -/
def emitCaught (c : Catch) : Emission (Catch × List Node) := do return (c, ← emitStmts ctx c.body)

theorem emitCatches_clauses {cs : List Catch} {emitted : List (Node × List Node)} {f f' : Option Frame}
    (h : (emitCatches ctx cs).run f = .ok (emitted, f')) :
    ∃ clauses, (cs.mapM (emitCaught ctx)).run f = .ok (clauses, f') ∧ List.Forall₂ Catches clauses emitted := by
  induction cs generalizing f emitted with
  | nil =>
    obtain ⟨rfl, rfl⟩ := run_pure_eq_ok.1 h
    exact ⟨[], rfl, .nil⟩
  | cons c cs ih =>
    obtain ⟨types, var, stmts, pos⟩ := c
    obtain ⟨tests, htests, h⟩ := run_built_bind.1 h
    obtain ⟨binding, hbinding, h⟩ := run_built_bind.1 h
    obtain ⟨body, f₁, hbody, h⟩ := run_bind_eq_ok.1 h
    obtain ⟨test, _, hlocated, h⟩ := run_bind_eq_ok.1 h
    obtain ⟨htest, rfl⟩ := run_built_eq_ok.1 (mapError_eq_ok.1 hlocated)
    obtain ⟨rest, f₂, hrest, h⟩ := run_bind_eq_ok.1 h
    obtain ⟨rfl, rfl⟩ := run_pure_eq_ok.1 h
    obtain ⟨clauses, hclauses, hcatches⟩ := ih hrest
    refine ⟨(⟨types, var, stmts, pos⟩, body) :: clauses, ?_,
      .cons ⟨⟨tests, htests, htest⟩, ⟨binding, hbinding, rfl⟩⟩ hcatches⟩
    rw [List.mapM_cons, run_bind_eq_ok]
    refine ⟨_, f₁, run_bind_eq_ok.2 ⟨body, f₁, hbody, rfl⟩, ?_⟩
    exact run_bind_eq_ok.2 ⟨clauses, f₂, hclauses, rfl⟩

variable {f f' : Option Frame} {n : Node}

/-- A conditional statement is emitted as one chain, with its own condition in front. -/
theorem emitStmt_branch_chain {pos : Position} {c : Expr} {t : List Stmt} {es : List ElseIf}
    {o : Option (List Stmt)} (h : (emitStmt ctx (.branch pos c t es o)).run f = .ok (n, f')) :
    ∃ (clauses : List (Node × List Node)) (ending : Option (List Node)) (f₁ : Option Frame),
      ((⟨c, t⟩ :: es).mapM (emitClause ctx)).run f = .ok (clauses, f₁) ∧
      (emitStmts ctx (o.getD [])).run f₁ = .ok (ending.getD [], f') ∧
      branches clauses (ending.map .block) = .ok (some n) := by
  rw [emitStmt_branch] at h
  obtain ⟨test, f₁, htest, h⟩ := run_bind_eq_ok.1 (mapError_eq_ok.1 h)
  obtain ⟨body, f₂, hbody, h⟩ := run_bind_eq_ok.1 h
  obtain ⟨clauses, f₃, hclauses, h⟩ := run_bind_eq_ok.1 h
  have hall : ((⟨c, t⟩ :: es).mapM (emitClause ctx)).run f = .ok ((test, body) :: clauses, f₃) := by
    rw [← emitElseIfs_eq_mapM]
    refine run_bind_eq_ok.2 ⟨test, f₁, htest, run_bind_eq_ok.2 ⟨body, f₂, hbody, ?_⟩⟩
    exact run_bind_eq_ok.2 ⟨clauses, f₃, hclauses, rfl⟩
  cases o with
  | none =>
    simp only [pure_bind] at h
    obtain ⟨rest, hrest, h⟩ := run_built_bind.1 h
    obtain ⟨hn, rfl⟩ := run_built_eq_ok.1 h
    exact ⟨_, none, f₃, hall, rfl, bind_eq_ok.2 ⟨rest, hrest, bind_eq_ok.2 ⟨n, hn, rfl⟩⟩⟩
  | some b =>
    simp only [pure_bind] at h
    obtain ⟨stmts, _, hstmts, h⟩ := run_bind_eq_ok.1 h
    obtain ⟨node, hnode, h⟩ := run_built_bind.1 h
    obtain ⟨-, rfl⟩ := block_eq_ok.1 hnode
    obtain ⟨rest, hrest, h⟩ := run_built_bind.1 h
    obtain ⟨hn, rfl⟩ := run_built_eq_ok.1 h
    exact ⟨_, some stmts, f₃, hall, hstmts, bind_eq_ok.2 ⟨rest, hrest, bind_eq_ok.2 ⟨n, hn, rfl⟩⟩⟩

/-- A statement that catches thrown values has one handler, for all its clauses. -/
theorem emitStmt_tryCatch_handler {pos : Position} {b : List Stmt} {c : Catch} {cs : List Catch}
    {o : Option (List Stmt)} (h : (emitStmt ctx (.tryCatch pos b (c :: cs) o)).run f = .ok (n, f')) :
    ∃ (body handler : List Node) (clauses : List (Catch × List Node)) (emitted : List (Node × List Node))
      (cleanup : Option (List Node)) (f₁ f₂ : Option Frame), (emitStmts ctx b).run f = .ok (body, f₁) ∧
      ((c :: cs).mapM (emitCaught ctx)).run f₁ = .ok (clauses, f₂) ∧ List.Forall₂ Catches clauses emitted ∧
      handlerOf emitted = .ok handler ∧ (emitStmts ctx (o.getD [])).run f₂ = .ok (cleanup.getD [], f') ∧
      n = .tryCatch (.block body) (some ⟨exceptionName, .block handler⟩) (cleanup.map .block) := by
  rw [emitStmt_tryCatch] at h
  obtain ⟨body, f₁, hbody, h⟩ := run_bind_eq_ok.1 (mapError_eq_ok.1 h)
  obtain ⟨emitted, f₂, hemitted, h⟩ := run_bind_eq_ok.1 h
  obtain ⟨clauses, hclauses, hcatches⟩ := emitCatches_clauses ctx hemitted
  -- clauses are there, so there is a handler
  have hsome : emitted.isEmpty = false := by
    rw [List.mapM_cons] at hclauses
    obtain ⟨_, _, -, hclauses⟩ := run_bind_eq_ok.1 hclauses
    obtain ⟨_, _, -, hclauses⟩ := run_bind_eq_ok.1 hclauses
    obtain ⟨rfl, -⟩ := run_pure_eq_ok.1 hclauses
    cases hcatches
    rfl
  rw [hsome] at h
  obtain ⟨handler, hhandler, h⟩ := run_built_bind.1 h
  refine ⟨body, handler, clauses, emitted, ?_⟩
  cases o with
  | none =>
    simp only [pure_bind] at h
    obtain ⟨hn, rfl⟩ := run_built_eq_ok.1 h
    obtain ⟨-, -, -, rfl⟩ := tryCatch_eq_ok hn
    exact ⟨none, f₁, f₂, hbody, hclauses, hcatches, hhandler, rfl, rfl⟩
  | some ss =>
    simp only [pure_bind] at h
    obtain ⟨cleanup, _, hcleanup, h⟩ := run_bind_eq_ok.1 h
    obtain ⟨hn, rfl⟩ := run_built_eq_ok.1 h
    obtain ⟨-, -, -, rfl⟩ := tryCatch_eq_ok hn
    exact ⟨some cleanup, f₁, f₂, hbody, hclauses, hcatches, hhandler, hcleanup, rfl⟩

/-- In a chain of emitted branches, the first match counts. A conditional statement executes the body of the first
condition that holds, or else the statements of its else part. A statement that catches thrown values hands one on to
the first clause that has a type of it, with the variable of the clause bound to it, and throws it again if there is
no such clause. -/
theorem first_match_wins :
    (∀ {pos c t es o f n f'}, (emitStmt ctx (.branch pos c t es o)).run f = .ok (n, f') →
      ∃ clauses ending f₁, ((⟨c, t⟩ :: es).mapM (emitClause ctx)).run f = .ok (clauses, f₁) ∧
        (emitStmts ctx (o.getD [])).run f₁ = .ok (ending, f') ∧
        ∀ {σ α : Type} (h : Host σ α) (s : σ), (∃ choice s₁, h.Chooses clauses s choice s₁) ∧
          ∀ choice s₁, h.Chooses clauses s choice s₁ → h.run n s = h.runAll (choice.getD ending) s₁) ∧
    ∀ {pos b c cs o f n f'}, (emitStmt ctx (.tryCatch pos b (c :: cs) o)).run f = .ok (n, f') →
      ∃ body clauses cleanup f₁ f₂, (emitStmts ctx b).run f = .ok (body, f₁) ∧
        ((c :: cs).mapM (emitCaught ctx)).run f₁ = .ok (clauses, f₂) ∧
        (emitStmts ctx (o.getD [])).run f₂ = .ok (cleanup, f') ∧
        ∀ {σ α : Type} (h : Host σ α) (s : σ), h.run n s =
          ((h.runAll body s).handled fun v s₁ =>
            (h.dispatch clauses v (h.enter exceptionName v s₁)).mapState h.leave).cleaned (h.runAll cleanup) := by
  refine ⟨fun hemitted => ?_, fun hemitted => ?_⟩
  · obtain ⟨clauses, ending, f₁, hclauses, hending, hchain⟩ := emitStmt_branch_chain ctx hemitted
    refine ⟨clauses, ending.getD [], f₁, hclauses, hending, fun h s => ⟨h.exists_chooses clauses s, ?_⟩⟩
    intro choice s₁ hchoice
    refine (Host.runOption_branches hchain hchoice).trans ?_
    cases choice with
    | some body => rfl
    | none => exact h.runOption_block ending s₁
  · obtain ⟨body, handler, clauses, emitted, cleanup, f₁, f₂, hbody, hclauses, hcatches, hhandler, hcleanup, rfl⟩ :=
      emitStmt_tryCatch_handler ctx hemitted
    refine ⟨body, clauses, cleanup.getD [], f₁, f₂, hbody, hclauses, hcleanup, fun h s => ?_⟩
    have hdispatch (v : _) (s₁ : _) : h.runHandler (some ⟨exceptionName, .block handler⟩) v s₁ =
        (h.dispatch clauses v (h.enter exceptionName v s₁)).mapState h.leave := by
      rw [← Host.runAll_handlerOf hcatches hhandler (h.get_enter ..)]
      rfl
    -- the two sides differ in the handler and in how the cleanup is given
    show ((h.runAll body s).handled _).cleaned _ = _
    rw [funext₂ hdispatch, funext (h.runOption_block cleanup)]

/-- Values are names of classes, and each has the class that it names. A return is all that statements do. -/
def nameHost : Host (String → String) String where
  get x s := s x
  set x v s := fun y => if y = x then v else s y
  enter x v s := fun y => if y = x then v else s y
  leave s := s
  hasClass cls v := match cls with
    | .string name => name == v
    | _ => false
  test n s := (n.isIdentifier, s)
  exec n s := match n with
    | .ret _ => .jumped (.ret none) s
    | _ => .normal s
  get_enter _ _ _ := if_pos rfl

/-- A number, which does not hold, then a variable. -/
def secondHolds : Stmt :=
  .branch .unknown (.int .unknown 0) [.breakLoop .unknown] [⟨.variable .unknown "a" false, [.ret .unknown none]⟩]
    (some [.nop .unknown])

/-- The second of two clauses, by the second of its types. -/
def secondTakes : Stmt :=
  .tryCatch .unknown [.throwValue .unknown (.variable .unknown "a" false)]
    [⟨[⟨["X"], .qualified⟩], "", [.nop .unknown], .unknown⟩,
      ⟨[⟨["Y"], .qualified⟩, ⟨["Z"], .qualified⟩], "e", [.ret .unknown none], .unknown⟩] none

theorem second_match_wins :
    (∃ n, (emitStmt ⟨{}, none⟩ secondHolds).run none = .ok (n, none) ∧
      nameHost.run n (fun _ => "Z") = .jumped (.ret none) fun _ => "Z") ∧
    ∃ n s, (emitStmt ⟨{}, none⟩ secondTakes).run none = .ok (n, none) ∧
      nameHost.run n (fun _ => "Z") = .jumped (.ret none) s ∧ s (mangle "e") = "Z" := by
  have hholds : ∃ n, (emitStmt ⟨{}, none⟩ secondHolds).run none = .ok (n, none) := ⟨_, rfl⟩
  have htakes : ∃ n, (emitStmt ⟨{}, none⟩ secondTakes).run none = .ok (n, none) := ⟨_, rfl⟩
  obtain ⟨⟨n, hn⟩, m, hm⟩ := hholds, htakes
  obtain ⟨clauses, ending, _, hclauses, hending, hchoice⟩ := (first_match_wins ⟨{}, none⟩).1 hn
  obtain ⟨body, catches, cleanup, _, _, hbody, hcatches, hcleanup, hrun⟩ := (first_match_wins ⟨{}, none⟩).2 hm
  cases hclauses
  cases hending
  cases hbody
  cases hcatches
  cases hcleanup
  refine ⟨⟨n, hn, (hchoice nameHost _).2 (some [.ret none]) _ ?_⟩, m, _, hm, hrun nameHost _, rfl⟩
  exact ⟨[_], _, _, _, rfl, .cons rfl .nil, rfl⟩

end ClassScript.Emit
