import ClassScript.Emit.Class
import ClassScript.Proofs.Script.Build
/-!
# Emissions that fail for no internal reason

`Safe` says that an emission does not fail for an internal reason, in a function or anywhere. It is
closed under all that emissions are made of, and what is emitted for names, operators, builtin
functions and branches is safe whatever it is given.
-/

namespace ClassScript.Emit

open Script

/-! ## Results -/

/-- The result is no internal failure. -/
def External {α : Type} (r : Result α) : Prop := ∀ d, r = .error d → d.kind ≠ .internal

namespace External

variable {α β : Type}

theorem pure (a : α) : External (Pure.pure a) := by
  rintro d ⟨⟩

theorem error {d : Diagnostic} (h : d.kind ≠ .internal) : External (.error d : Result α) := by
  rintro _ ⟨⟩
  exact h

theorem bind {r : Result α} {f : α → Result β} (h : External r) (hf : ∀ a, External (f a)) : External (r >>= f) := by
  cases r with
  | error e => exact error (h e rfl)
  | ok a => exact hf a

theorem built {b : Built α} (h : Clean b) : External (liftM b : Result α) := by
  intro d hd
  cases b with
  | error f =>
    cases hd
    rw [show f.diagnostic.kind = .invalidArgument from h f rfl]
    nofun
  | ok a => cases hd

theorem mapM {l : List α} {f : α → Result β} (h : ∀ a, External (f a)) : External (l.mapM f) := by
  induction l with
  | nil =>
    rw [List.mapM_nil]
    exact pure _
  | cons a l ih =>
    rw [List.mapM_cons]
    refine (h a).bind fun b => ?_
    exact ih.bind fun bs => pure (b :: bs)

end External

/-! ## Emissions -/

/-- The outcome is no internal failure. If a function is asked for, it is still there. -/
def Fine {α : Type} (inside : Bool) : Result (α × Option Frame) → Prop
  | .error d => d.kind ≠ .internal
  | .ok (_, frame) => inside = true → frame.isSome = true

/-- The emission fails for no internal reason, in a function or, if none is asked for, anywhere. -/
def Safe {α : Type} (inside : Bool) (act : Emission α) : Prop :=
  ∀ frame : Option Frame, (inside = true → frame.isSome = true) → Fine inside (act.run frame)

namespace Safe

variable {α β : Type} {inside : Bool}

theorem pure (a : α) : Safe inside (Pure.pure a : Emission α) := by
  intro frame hframe
  exact hframe

theorem bind {act : Emission α} {f : α → Emission β} (h : Safe inside act)
    (hf : ∀ a, Safe inside (f a)) : Safe inside (act >>= f) := by
  intro frame hframe
  have hact := h frame hframe
  rw [StateT.run_bind]
  cases hrun : act.run frame with
  | error d => rw [hrun] at hact; exact hact
  | ok x => rw [hrun] at hact; exact hf x.1 x.2 hact

theorem result {r : Result α} (h : External r) : Safe inside (liftM r : Emission α) := by
  intro frame hframe
  cases r with
  | error d => exact h d rfl
  | ok a => exact hframe

theorem built {b : Built α} (h : Clean b) : Safe inside (liftM b : Emission α) :=
  result (r := liftM b) (.built h)

theorem fail {fault : Fault} (h : fault.kind ≠ .internal) : Safe inside (fail fault : Emission α) := by
  intro frame _
  exact h

theorem failAt {fault : Fault} (h : fault.kind ≠ .internal) (pos : Position) :
    Safe inside (failAt fault pos : Emission α) := by
  intro frame _
  exact h

theorem located {act : Emission α} (h : Safe inside act) (pos : Position) :
    Safe inside (located pos act) := by
  intro frame hframe
  have hact := h frame hframe
  show Fine inside ((act.run frame).mapError (·.orPlaced pos))
  cases hrun : act.run frame with
  | error d =>
    rw [hrun] at hact
    exact fun hd => hact ((Diagnostic.kind_orPlaced d pos).symm.trans hd)
  | ok x => rw [hrun] at hact; exact hact

theorem ite {c : Prop} [Decidable c] {act act' : Emission α} (h : Safe inside act)
    (h' : Safe inside act') : Safe inside (if c then act else act') := by
  split
  · exact h
  · exact h'

theorem get : Safe inside (MonadState.get : Emission (Option Frame)) := by
  intro frame hframe
  exact hframe

theorem mapM {l : List α} {f : α → Emission β} (h : ∀ a ∈ l, Safe inside (f a)) :
    Safe inside (l.mapM f) := by
  induction l with
  | nil =>
    rw [List.mapM_nil]
    exact pure _
  | cons a l ih =>
    rw [List.forall_mem_cons] at h
    rw [List.mapM_cons]
    refine h.1.bind fun b => ?_
    exact (ih h.2).bind fun bs => pure (b :: bs)

end Safe

theorem External.run' {α : Type} {act : Emission α} (h : Safe false act) : External (act.run' none) := by
  intro d hd
  have hfine := h none nofun
  change Prod.fst <$> act.run none = .error d at hd
  cases hrun : act.run none with
  | error d' =>
    rw [hrun] at hd hfine
    cases hd
    exact hfine
  | ok x =>
    rw [hrun] at hd
    cases hd

/-! ## Functions -/

variable {inside : Bool}

theorem safe_hoist (name : String) : Safe true (hoist name) := by
  intro frame hframe
  obtain ⟨frame, rfl⟩ := Option.isSome_iff_exists.1 (hframe rfl)
  by_cases hc : name ∈ frame.hoisted
  · have hrun : (hoist name).run (some frame) = .ok ((), some frame) := by
      unfold hoist
      simp [hc]
      rfl
    rw [hrun]
    exact fun _ => rfl
  · have hrun : (hoist name).run (some frame) =
        .ok ((), some { frame with hoisted := frame.hoisted ++ [name] }) := by
      unfold hoist
      simp [hc]
      rfl
    rw [hrun]
    exact fun _ => rfl

/-- What is left to do for a function when its statements are emitted. -/
def closeFunction (isConstructor : Bool) (params stmts : List Node) (hoisted : List String) :
    Emission Node := do
  let ending ← if isConstructor then do pure [← ret (some (← ident publicBucket))] else pure []
  let declared ← hoisted.mapM (declare · none)
  function params (declared ++ stmts ++ ending)

theorem functionOf_run (isConstructor : Bool) (parts : Emission (List Node × List Node))
    (frame : Option Frame) : (functionOf isConstructor parts).run frame = (do
      let ((params, stmts), inner) ← parts.run (some { isConstructor })
      (closeFunction isConstructor params stmts ((inner.map Frame.hoisted).getD [])).run frame) := rfl

theorem safe_closeFunction (isConstructor : Bool) (params stmts : List Node) (hoisted : List String) :
    Safe inside (closeFunction isConstructor params stmts hoisted) := by
  have hrest (ending : List Node) : Safe inside (do
      let declared ← hoisted.mapM (fun n => (declare n none : Emission Node))
      function params (declared ++ stmts ++ ending) : Emission Node) := by
    have hdeclared : Safe inside (hoisted.mapM fun n => (declare n none : Emission Node)) :=
      .mapM fun n _ => .built (clean_declare n none)
    exact hdeclared.bind fun declared => .built (clean_function (declared ++ stmts ++ ending) params)
  refine Safe.ite ?_ ((Safe.pure []).bind hrest)
  refine (Safe.built (clean_ident publicBucket)).bind fun bucket => ?_
  refine (Safe.built (clean_ret (some bucket))).bind fun last => ?_
  exact (Safe.pure [last]).bind hrest

/-- A function has a frame of its own, wherever it stands. -/
theorem safe_functionOf {parts : Emission (List Node × List Node)} (h : Safe true parts)
    (isConstructor : Bool) : Safe inside (functionOf isConstructor parts) := by
  intro frame hframe
  have hparts := h (some { isConstructor }) fun _ => rfl
  rw [functionOf_run]
  cases hrun : parts.run (some { isConstructor }) with
  | error d => rw [hrun] at hparts; exact hparts
  | ok x => exact safe_closeFunction _ _ _ _ frame hframe

/-! ## Builtin functions -/

/-- What a call expands to is made without internal faults, whatever the arguments. -/
def Expansion.Clean : Expansion → Prop
  | one f => ∀ a, Script.Clean (f a)
  | two f => ∀ a b, Script.Clean (f a b)
  | three f => ∀ a b c, Script.Clean (f a b c)
  | twoOrThree f | twoOrMore f => ∀ a b more, Script.Clean (f a b more)
  | oneOrMore f => ∀ a more, Script.Clean (f a more)

theorem Expansion.Clean.on {e : Expansion} (h : e.Clean) {args : List Node} {b : Built Node}
    (hb : e.on? args = some b) : Script.Clean b := by
  cases e with
  | one f =>
    match args, hb with
    | [a], rfl => exact h a
  | two f =>
    match args, hb with
    | [a, b], rfl => exact h a b
  | three f =>
    match args, hb with
    | [a, b, c], rfl => exact h a b c
  | twoOrThree f =>
    match args, hb with
    | [a, b], rfl => exact h a b []
    | [a, b, c], rfl => exact h a b [c]
  | oneOrMore f =>
    match args, hb with
    | a :: rest, rfl => exact h a rest
  | twoOrMore f =>
    match args, hb with
    | a :: b :: rest, rfl => exact h a b rest

namespace Builtin

theorem clean_helper (name : String) (args : List Node) : Clean (helper name args) :=
  (clean_ident name).bind fun function => clean_call function args

theorem clean_math (name : String) (args : List Node) : Clean (math name args) :=
  (clean_path _).bind fun function => clean_call function args

theorem clean_convert (type : CastType) (n : Node) : Clean (convert type n) := by
  cases type <;> exact clean_helper _ _

theorem clean_replace (a b c : Node) : Clean (replace a b c) :=
  (clean_methodCall "split" c [a]).bind fun pieces => clean_methodCall "join" pieces [b]

theorem clean_explode (a b : Node) : Clean (explode a b) :=
  (clean_methodCall "split" b [a]).bind fun pieces => clean_helper _ [pieces]

theorem functions_clean : ∀ x ∈ functions, x.2.Clean := by
  simp only [functions, List.forall_mem_cons, Expansion.Clean, typeTest, helper1, method1, method2,
    swapped, math1, clean_helper, clean_math, clean_convert, clean_replace, clean_explode,
    clean_methodCall, clean_member, clean_binary, implies_true, true_and, List.not_mem_nil,
    false_imp_iff]

theorem constants_clean : ∀ x ∈ constants, Clean x.2 := by
  simp only [constants, List.forall_mem_cons, Clean.ok, clean_path, true_and, List.not_mem_nil,
    implies_true, false_imp_iff]

theorem safe_constant {name : String} {value : Built Node} (h : constant? name = some value) :
    Safe inside (liftM value : Emission Node) :=
  .built (constants_clean (name, value) (mem_of_lookup h))

theorem safe_call {name : String} {args : List Node} {r : Result Node} (h : call? name args = some r) :
    Safe inside (liftM r : Emission Node) := by
  obtain ⟨f, hf, rfl⟩ := Option.map_eq_some_iff.1 h
  have hclean := functions_clean (lower name, f) (mem_of_lookup hf)
  split
  · next node hnode => exact .built (hclean.on hnode)
  · exact .result (.error (by nofun))

end Builtin

/-! ## Names -/

theorem clean_native {n : Name} {b : Built Node} (h : nativePath? n = some b) : Clean b := by
  unfold nativePath? at h
  split at h
  · split at h
    · cases h
      exact clean_path _
    · cases h
  · cases h

theorem clean_classPath (qualified : String) : Clean (classPath qualified) := clean_path _

theorem clean_constantsPath (qualified : String) : Clean (constantsPath qualified) :=
  (clean_classPath qualified).bind fun path => clean_member constantsKey path

theorem clean_instanceCheck (value : Node) (cls : Name) : Clean (instanceCheck value cls) := by
  unfold instanceCheck
  split
  · next native h => exact (clean_native h).bind fun host => clean_binary value host _
  · exact (clean_ident instanceCheckName).bind fun check => clean_call check _

theorem safe_constantValue (n : Name) : Safe inside (constantValue n) := by
  unfold constantValue
  split
  · next native h => exact .built (clean_native h)
  · split
    · next value h => exact Builtin.safe_constant h
    · exact .fail nofun

theorem safe_functionCall (n : Name) (args : List Node) : Safe inside (functionCall n args) := by
  unfold functionCall
  split
  · next native h => exact (Safe.built (clean_native h)).bind fun host => .built (clean_call host args)
  · refine .ite ((Safe.built (clean_ident n.joined)).bind fun function => .built (clean_call function args)) ?_
    split
    · next node h => exact Builtin.safe_call h
    · exact .fail nofun

theorem safe_instantiation (ctx : Context) (cls : Name) (args : List Node) :
    Safe inside (instantiation ctx cls args) := by
  unfold instantiation
  split
  · next native h => exact (Safe.built (clean_native h)).bind fun host => .built (clean_new host args)
  · refine .ite ?_ (.ite (.fail nofun) (.fail nofun))
    refine (Safe.built (clean_classPath cls.joined)).bind fun path => ?_
    refine (Safe.built (clean_member constructorName path)).bind fun make => ?_
    exact .built (clean_call make args)

theorem safe_classConstant (ctx : Context) (n : Name) (constant : String) :
    Safe inside (classConstant ctx (.named n) constant) := by
  refine (Safe.pure n).bind fun n => .ite (.pure _) ?_
  split
  · next native h => exact (Safe.built (clean_native h)).bind fun host => .built (clean_member constant host)
  · have htable (_ : Unit) : Safe inside (do
        if ctx.constantsOwner == some n.joined then member (← ident constantsName) constant
        else propertyOf (← constantsPath n.joined) [← ident constant] : Emission Node) := by
      refine .ite ?_ ?_
      · exact (Safe.built (clean_ident constantsName)).bind fun table => .built (clean_member constant table)
      · refine (Safe.built (clean_constantsPath n.joined)).bind fun table => ?_
        refine (Safe.built (clean_ident constant)).bind fun key => ?_
        exact .built (clean_propertyOf table [key])
    refine .ite ?_ (.bind (.fail (by nofun)) fun _ => ?_)
    all_goals exact .ite (htable ()) (.bind (.fail (by nofun)) htable)

/-! ## Operators, branches and parameters -/

theorem clean_binaryNode (op : BinaryOp) (l r : Node) : Clean (binaryNode op l r) := by
  unfold binaryNode
  split
  · exact clean_methodCall _ _ _
  · exact (clean_path _).bind fun power => clean_call power [l, r]
  · exact (clean_ident _).bind fun compare => clean_call compare [l, r]
  · refine (clean_ident _).bind fun compare => ?_
    exact (clean_call compare [l, r]).bind fun same => clean_negate same
  · refine (clean_negate l).bind fun l => ?_
    exact (clean_negate r).bind fun r => clean_binary l r _
  · exact clean_binary _ _ _

theorem clean_variableNode (name : String) (synthetic : Bool) : Clean (variableNode name synthetic) := by
  unfold variableNode
  split
  · exact clean_ident _
  · split <;> exact clean_ident _

theorem clean_branches (bs : List (Node × List Node)) (ending : Option Node) :
    Clean (branches bs ending) := by
  induction bs with
  | nil => exact .pure _
  | cons b bs ih =>
    refine ih.bind fun rest => ?_
    exact (clean_branch b.1 b.2 rest).bind fun node => .pure (some node)

theorem clean_handlerOf (clauses : List (Node × List Node)) : Clean (handlerOf clauses) := by
  refine (clean_ident exceptionName).bind fun exception => ?_
  refine (clean_throwValue exception).bind fun thrown => ?_
  refine (clean_block [thrown]).bind fun rethrow => ?_
  exact (clean_branches clauses (some rethrow)).bind fun node => .pure node.toList

theorem clean_catchTests (types : List Name) : Clean (catchTests types) := by
  refine .mapM fun type => ?_
  exact (clean_ident exceptionName).bind fun exception => clean_instanceCheck exception type

theorem clean_catchBinding (var : String) : Clean (catchBinding var) := by
  refine .ite (.pure []) ?_
  refine (clean_ident exceptionName).bind fun exception => ?_
  exact (clean_declare (mangle var) (some exception)).bind fun binding => .pure [binding]

theorem clean_sequence (ns : List Node) : Clean (sequence ns) := by
  cases ns with
  | nil => exact .pure _
  | cons n ns => exact (clean_chain (n :: ns) ",").bind fun node => .pure (some node)

theorem clean_restArguments (index : Nat) : Clean (restArguments index) := by
  refine (clean_path _).bind fun function => ?_
  refine (clean_ident "arguments").bind fun given => ?_
  refine (clean_call function [given, .int index]).bind fun slice => ?_
  exact (clean_ident "__toPhpArray").bind fun convert => clean_call convert [slice]

theorem clean_defaultStatement (name : String) (value : Node) : Clean (defaultStatement name value) := by
  refine (clean_ident name).bind fun param => ?_
  refine (clean_binary param undefined _).bind fun test => ?_
  refine (clean_ident name).bind fun param => ?_
  refine (clean_assign param value).bind fun assigned => ?_
  exact (clean_statement assigned).bind fun stmt => clean_branch test [stmt] none

/-! ## Nodes with optional parts -/

theorem emitExpr_property (ctx : Context) (p : Position) (o : Expr) (n : MemberName) (v : Option Visibility) :
    emitExpr ctx (.property p o n v) = located p (match thisMember? o n v p with
      | some node => node
      | none => do emitMember ctx (← emitExpr ctx o) n) := rfl

theorem emitStmt_branch (ctx : Context) (p : Position) (c : Expr) (t : List Stmt) (elseIfs : List ElseIf)
    (o : Option (List Stmt)) : emitStmt ctx (.branch p c t elseIfs o) = located p (do
      let c ← emitExpr ctx c
      let t ← emitStmts ctx t
      let elseIfs ← emitElseIfs ctx elseIfs
      let ending ← match o with
        | some b => do pure (some (← block (← emitStmts ctx b)))
        | none => pure none
      branch c t (← branches elseIfs ending)) := by
  cases o <;> rfl

theorem emitStmt_tryCatch (ctx : Context) (p : Position) (b : List Stmt) (cs : List Catch)
    (f : Option (List Stmt)) : emitStmt ctx (.tryCatch p b cs f) = located p (do
      let b ← emitStmts ctx b
      let clauses ← emitCatches ctx cs
      let handler ← if clauses.isEmpty then pure none
        else do pure (some (exceptionName, ← handlerOf clauses))
      let cleanup ← match f with
        | some ss => do pure (some (← emitStmts ctx ss))
        | none => pure none
      tryCatch b handler cleanup) := by
  cases f <;> rfl

end ClassScript.Emit
