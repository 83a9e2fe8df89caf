import ClassScript.Grammar
/-!
# Levels do not count

A parser of some level also reads what a parser of the level below may read (`Parser.down`). Every rule made
from rules a level down is the rule itself a level down, so the rules of a level are those of the level above
on fewer tokens (`rules_down`), and what is read depends on the tokens alone (`rules_stmt_levelFree`,
`rules_expr_levelFree`).
-/

namespace ClassScript

variable {ε τ α β : Type} {n : Nat}

/-- The parser a level down. -/
def Parser.down (p : Parser ε τ (n + 1) α) : Parser ε τ n α := ⟨fun ts h => p.run ts (Nat.lt_succ_of_lt h)⟩

@[inherit_doc Parser.down]
def Consuming.down (p : Consuming ε τ (n + 1) α) : Consuming ε τ n α :=
  ⟨fun ts h => p.run ts (Nat.lt_succ_of_lt h)⟩

instance : Subsingleton (Consuming ε τ 0 α) :=
  ⟨fun _ _ => congrArg Consuming.mk (funext fun _ => funext fun h => absurd h (Nat.not_lt_zero _))⟩

/-- What the parsers of a family read depends on the tokens alone, not on the level. -/
def Consuming.LevelFree (p : (n : Nat) → Consuming ε τ n α) : Prop :=
  ∀ m n ts hm hn, (p m).run ts hm = (p n).run ts hn

theorem Consuming.levelFree_of_down {p : (n : Nat) → Consuming ε τ n α} (hp : ∀ n, (p (n + 1)).down = p n) :
    LevelFree p := by
  intro m n ts hm hn
  have hall (k : Nat) (hk : ts.length < k) :
      (p k).run ts hk = (p (ts.length + 1)).run ts (Nat.lt_succ_self _) := by
    induction k with
    | zero => exact absurd hk (Nat.not_lt_zero _)
    | succ k ih =>
      obtain hlt | rfl := Nat.lt_succ_iff_lt_or_eq.1 hk
      · calc (p (k + 1)).run ts hk
          _ = (p (k + 1)).down.run ts hlt := rfl
          _ = (p k).run ts hlt := by rw [hp]
          _ = _ := ih hlt
      · rfl
  rw [hall m hm, hall n hn]

/-! ## Combinators -/

namespace Parser

@[simp] theorem pure_down (a : α) : (pure a : Parser ε τ (n + 1) α).down = pure a := rfl

@[simp] theorem fail_down (e : ε) : (fail e : Parser ε τ (n + 1) α).down = fail e := rfl

@[simp] theorem ahead_down : (ahead : Parser ε τ (n + 1) (List τ)).down = ahead := rfl

@[simp] theorem take?_down (value : τ → Option α) :
    (take? value : Parser ε τ (n + 1) (Option α)).down = take? value := by
  refine congrArg Parser.mk (funext fun ts => funext fun h => ?_)
  cases ts <;> rfl

@[simp] theorem takeWhile_down (test : τ → Bool) :
    (takeWhile test : Parser ε τ (n + 1) (List τ)).down = takeWhile test := rfl

@[simp] theorem bind_down (p : Parser ε τ (n + 1) α) (f : α → Parser ε τ (n + 1) β) :
    (p >>= f).down = p.down >>= fun a => (f a).down := rfl

/-- Step by step, where what follows is not made of combinators alone. -/
theorem bind_down_eq {p : Parser ε τ (n + 1) α} {f : α → Parser ε τ (n + 1) β} {p' : Parser ε τ n α}
    {f' : α → Parser ε τ n β} (hp : p.down = p') (hf : ∀ a, (f a).down = f' a) : (p >>= f).down = p' >>= f' := by
  subst hp
  rw [bind_down, funext hf]

@[simp] theorem map_down (p : Parser ε τ (n + 1) α) (f : α → β) : (f <$> p).down = f <$> p.down := rfl

@[simp] theorem discard_down (p : Parser ε τ (n + 1) α) : (discard p).down = discard p.down := rfl

@[simp] theorem ite_down {c : Prop} [Decidable c] (p q : Parser ε τ (n + 1) α) :
    (if c then p else q).down = if c then p.down else q.down := apply_ite _ _ _ _

@[simp] theorem map_ite_down {c : Prop} [Decidable c] (o o' : Option (Parser ε τ (n + 1) α)) :
    (if c then o else o').map down = if c then o.map down else o'.map down := apply_ite _ _ _ _

@[simp] theorem accept_down (test : τ → Bool) : (accept test : Parser ε τ (n + 1) Bool).down = accept test := by
  simp [accept]

end Parser

namespace Consuming

@[simp] theorem parser_down (p : Consuming ε τ (n + 1) α) : p.parser.down = p.down.parser := rfl

@[simp] theorem lift_down (p : Consuming ε τ (n + 1) α) :
    (liftM p : Parser ε τ (n + 1) α).down = liftM p.down := rfl

@[simp] theorem fail_down (e : ε) : (fail e : Consuming ε τ (n + 1) α).down = fail e := rfl

@[simp] theorem look_down (f : List τ → Consuming ε τ (n + 1) α) :
    (look f).down = look fun ts => (f ts).down := rfl

@[simp] theorem ite_down {c : Prop} [Decidable c] (p q : Consuming ε τ (n + 1) α) :
    (if c then p else q).down = if c then p.down else q.down := apply_ite _ _ _ _

@[simp] theorem take_down (refuse : List τ → ε) (value : τ → Option α) :
    (take refuse value : Consuming ε τ (n + 1) α).down = take refuse value := by
  refine congrArg Consuming.mk (funext fun ts => funext fun h => ?_)
  cases ts <;> rfl

@[simp] theorem before_down (p : Parser ε τ (n + 1) α) (f : α → Consuming ε τ (n + 1) β) :
    (p.before f).down = p.down.before fun a => (f a).down := rfl

@[simp] theorem bind_down (p : Consuming ε τ (n + 1) α) (f : α → Parser ε τ (n + 1) β) :
    (p.bind f).down = p.down.bind fun a => (f a).down := rfl

@[simp] theorem map_down (p : Consuming ε τ (n + 1) α) (f : α → β) : (p.map f).down = p.down.map f := rfl

@[simp] theorem andThen_down (p : Consuming ε τ (n + 2) α) (f : α → Parser ε τ (n + 1) β) :
    (p.andThen f).down = p.down.andThen fun a => (f a).down := rfl

@[simp] theorem first_down (atEnd : ε) (f : τ → List τ → Parser ε τ (n + 1) α) :
    (first atEnd f).down = first atEnd fun t rest => (f t rest).down := by
  refine congrArg Consuming.mk (funext fun ts => funext fun h => ?_)
  cases ts <;> rfl

@[simp] theorem firstOr_down (f : τ → List τ → Option (Parser ε τ (n + 1) α)) (p : Consuming ε τ (n + 2) α) :
    (firstOr f p).down = firstOr (fun t rest => (f t rest).map Parser.down) p.down := by
  refine congrArg Consuming.mk (funext fun ts => funext fun h => ?_)
  cases ts with
  | nil => rfl
  | cons t rest =>
    dsimp only [firstOr]
    cases f t rest <;> rfl

end Consuming

namespace Parser

theorem loopFrom_down (step : α → τ → List τ → Option (Parser ε τ (n + 1) α)) :
    (a : α) → (ts : List τ) → (h : ts.length < n) → loopFrom step a ts (Nat.lt_succ_of_lt h) =
      loopFrom (fun a t rest => (step a t rest).map down) a ts h
  | a, [], _ => by rw [loopFrom, loopFrom]
  | a, t :: rest, _ => by
    rw [loopFrom, loopFrom]
    cases step a t rest with
    | none => rfl
    | some p =>
      dsimp only [down, Option.map_some]
      cases p.run rest _ with
      | error e => rfl
      | ok r =>
        have := r.suffix.length_le
        dsimp only
        rw [loopFrom_down step r.value r.rest]
termination_by _ ts => ts.length
decreasing_by simp only [List.length_cons]; omega

@[simp] theorem loop_down (step : α → τ → List τ → Option (Parser ε τ (n + 1) α)) (a : α) :
    (loop step a).down = loop (fun a t rest => (step a t rest).map down) a :=
  congrArg Parser.mk (funext fun ts => funext fun h => loopFrom_down step a ts h)

theorem manyFrom_down (stop : List τ → Bool) (item : Consuming ε τ (n + 1) α) (ts : List τ)
    (h : ts.length < n) : manyFrom stop item ts (Nat.lt_succ_of_lt h) = manyFrom stop item.down ts h := by
  rw [manyFrom, manyFrom]
  split
  · rfl
  · dsimp only [Consuming.down]
    cases item.run ts _ with
    | error e => rfl
    | ok r =>
      have := r.shorter
      dsimp only
      rw [manyFrom_down stop item r.rest]
      rfl
termination_by ts.length

@[simp] theorem many_down (stop : List τ → Bool) (item : Consuming ε τ (n + 1) α) :
    (many stop item).down = many stop item.down :=
  congrArg Parser.mk (funext fun ts => funext fun h => manyFrom_down stop item ts h)

@[simp] theorem separated_down (separator : τ → Bool) (item : Consuming ε τ (n + 1) α) :
    (separated separator item).down = separated separator item.down := by
  simp [separated]

@[simp] theorem separatedUntil_down (stop : List τ → Bool) (separator : τ → Bool)
    (item : Consuming ε τ (n + 1) α) :
    (separatedUntil stop separator item).down = separatedUntil stop separator item.down := by
  simp [separatedUntil]

end Parser

namespace Grammar

/-- The rules a level down. -/
def Rules.down (rules : Rules (n + 1)) : Rules n where
  expr least := (rules.expr least).down
  unary := rules.unary.down
  suffixed := rules.suffixed.down
  primary := rules.primary.down
  stmt := rules.stmt.down

variable {self : Rules (n + 1)}

@[simp] theorem self_expr_down (least : Nat) : (self.expr least).down = self.down.expr least := rfl

@[simp] theorem self_unary_down : self.unary.down = self.down.unary := rfl

@[simp] theorem self_suffixed_down : self.suffixed.down = self.down.suffixed := rfl

@[simp] theorem self_primary_down : self.primary.down = self.down.primary := rfl

@[simp] theorem self_stmt_down : self.stmt.down = self.down.stmt := rfl

/-! ## The smallest parts -/

@[simp] theorem failExpected_down (what : Expected) :
    Parser.down (failExpected what : Reads (n + 1) α) = failExpected what := rfl

@[simp] theorem refuse_down (feature : Feature) :
    Parser.down (refuse feature : Reads (n + 1) α) = refuse feature := rfl

@[simp] theorem refuseIf_down (shows : List Token → Bool) (feature : Feature) :
    Parser.down (refuseIf shows feature : Reads (n + 1) Unit) = refuseIf shows feature := by
  simp [refuseIf]

@[simp] theorem here_down : Parser.down (here : Reads (n + 1) Position) = here := rfl

@[simp] theorem skip_down : Parser.down (skip : Reads (n + 1) Unit) = skip := by simp [skip]

@[simp] theorem accepts_down (s : String) : Parser.down (accepts s : Reads (n + 1) Bool) = accepts s := by
  simp [accepts]

@[simp] theorem acceptsWord_down (w : String) :
    Parser.down (acceptsWord w : Reads (n + 1) Bool) = acceptsWord w := by
  simp [acceptsWord]

@[simp] theorem symbol_down (s : String) : Parser.down (symbol s : Reads (n + 1) Unit) = symbol s := by
  simp [symbol]

@[simp] theorem keyword_down (w : String) : Parser.down (keyword w : Reads (n + 1) Unit) = keyword w := by
  simp [keyword]

@[simp] theorem word_down : Consuming.down (word : Takes (n + 1) String) = word := by simp [word]

@[simp] theorem variableName_down : Consuming.down (variableName : Takes (n + 1) String) = variableName := by
  simp [variableName]

@[simp] theorem name_down : Consuming.down (name : Takes (n + 1) Name) = name := by simp [name]

@[simp] theorem names_down : Consuming.down (names : Takes (n + 1) (List Name)) = names := by simp [names]

@[simp] theorem endStatement_down : Parser.down (endStatement : Reads (n + 1) Unit) = endStatement := by
  simp [endStatement]

@[simp] theorem listUntil_down (close : String) (item : Takes (n + 1) α) :
    (listUntil close item).down = listUntil close item.down := by
  simp [listUntil]

@[simp] theorem optionally_down (s : String) (p : Takes (n + 1) α) :
    (optionally s p).down = optionally s p.down := by
  simp [optionally]

@[simp] theorem modifiers_down : Parser.down (modifiers : Reads (n + 1) (List String)) = modifiers := by
  simp [modifiers]

@[simp] theorem typeHint_down : Consuming.down (typeHint : Takes (n + 1) TypeHint) = typeHint := by
  simp [typeHint]

@[simp] theorem returnType_down : Parser.down (returnType : Reads (n + 1) Unit) = returnType := by
  simp [returnType]

@[simp] theorem capture_down : Consuming.down (capture : Takes (n + 1) Capture) = capture := by
  simp [capture]

@[simp] theorem skipBlock_down : Parser.down (skipBlock : Reads (n + 1) Unit) = skipBlock := by
  simp [skipBlock]

/-! ## Expressions -/

@[simp] theorem param_down : (param self).down = param self.down := by simp [param]

@[simp] theorem params_down : (params self).down = params self.down := by simp [params]

@[simp] theorem blockRest_down : (blockRest self).down = blockRest self.down := by simp [blockRest]

@[simp] theorem block_down : (block self).down = block self.down := by simp [block]

@[simp] theorem body_down : (body self).down = body self.down := by simp [body]

@[simp] theorem parenthesised_down : (parenthesised self).down = parenthesised self.down := by
  simp [parenthesised]

@[simp] theorem arg_down : (arg self).down = arg self.down := by simp [arg]

@[simp] theorem argsRest_down : (argsRest self).down = argsRest self.down := by simp [argsRest]

@[simp] theorem args?_down : (args? self).down = args? self.down := by simp [args?]

@[simp] theorem item_down : (item self).down = item self.down := by simp [item]

@[simp] theorem closureRest_down (pos : Position) (isStatic : Bool) :
    (closureRest self pos isStatic).down = closureRest self.down pos isStatic := by
  simp [closureRest]

@[simp] theorem memberName_down : (memberName self).down = memberName self.down := by
  refine Parser.bind_down_eq rfl fun ts => ?_
  split <;> simp

@[simp] theorem staticAccess_down (cls : ClassRef) (pos : Position) :
    (staticAccess self cls pos).down = staticAccess self.down cls pos := by
  refine Parser.bind_down_eq rfl fun ts => ?_
  split
  · simp
  · refine Parser.bind_down_eq skip_down fun _ => Parser.bind_down_eq args?_down fun as => ?_
    cases as <;> rfl
  · rfl

@[simp] theorem suffix?_down (e : Expr) (t : Token) :
    (suffix? self e t).map Parser.down = suffix? self.down e t := by
  unfold suffix?
  split
  case h_1 =>
    refine congrArg some ?_
    refine Parser.bind_down_eq memberName_down fun name => Parser.bind_down_eq args?_down fun as => ?_
    cases as <;> rfl
  all_goals simp

@[simp] theorem suffixes_down (e : Expr) : (suffixes self e).down = suffixes self.down e := by
  simp [suffixes]

@[simp] theorem anonymousClassRest_down (pos : Position) :
    (anonymousClassRest self pos).down = anonymousClassRest self.down pos := by
  simp [anonymousClassRest]

@[simp] theorem newRest_down (pos : Position) : (newRest self pos).down = newRest self.down pos := by
  refine Parser.bind_down_eq (acceptsWord_down _) fun _ => ?_
  rw [Parser.ite_down, anonymousClassRest_down]
  congr 1
  refine Parser.bind_down_eq rfl fun ts => ?_
  split <;> simp

@[simp] theorem nameExpr_down (t : Token) (raw : String) (rest : List Token) :
    (nameExpr self t raw rest).down = nameExpr self.down t raw rest := by
  unfold nameExpr
  extract_lets pos plain plain'
  have hplain : plain.down = plain' := by
    refine Parser.bind_down_eq (accepts_down _) fun _ => ?_
    rw [Parser.ite_down, staticAccess_down]
    congr 1
    refine Parser.bind_down_eq args?_down fun as => ?_
    cases as <;> rfl
  rw [Parser.ite_down, hplain]
  refine congrArg (ite _ plain') ?_
  split <;> simp [hplain]

@[simp] theorem primary_down : (primary self).down = primary self.down := by
  simp only [primary, Consuming.first_down]
  congr 1
  funext t rest
  split <;> simp

@[simp] theorem suffixed_down : (suffixed self).down = suffixed self.down := by simp [suffixed]

@[simp] theorem before?_down (t : Token) (rest : List Token) :
    (before? self t rest).map Parser.down = before? self.down t rest := by
  unfold before?
  split
  · simp
  · split
    case h_5 =>
      split
      · split <;> simp
      · simp
    all_goals simp

@[simp] theorem unary_down : (unary self).down = unary self.down := by simp [unary]

@[simp] theorem testedClass_down : Parser.down (testedClass : Reads (n + 1) ClassRef) = testedClass := by
  refine Parser.bind_down_eq rfl fun ts => ?_
  split <;> simp

@[simp] theorem operator?_down (least : Nat) (left : Expr) (t : Token) :
    (operator? self least left t).map Parser.down = operator? self.down least left t := by
  unfold operator?
  split
  · next kind _ => cases kind <;> simp
  · cases binaryOp? t.kind <;> simp

@[simp] theorem expr_down (least : Nat) : (expr self least).down = expr self.down least := by simp [expr]

/-! ## Members -/

@[simp] theorem constant_down (modifiers : Modifiers) :
    (constant self modifiers).down = constant self.down modifiers := by
  simp [constant]

@[simp] theorem property_down (modifiers : Modifiers) :
    (property self modifiers).down = property self.down modifiers := by
  simp [property]

@[simp] theorem constantsRest_down (modifiers : Modifiers) :
    (constantsRest self modifiers).down = constantsRest self.down modifiers := by
  simp [constantsRest]

@[simp] theorem methodRest_down (modifiers : Modifiers) (pos : Position) :
    (methodRest self modifiers pos).down = methodRest self.down modifiers pos := by
  simp [methodRest]

@[simp] theorem properties_down (modifiers : Modifiers) :
    (properties self modifiers).down = properties self.down modifiers := by
  simp [properties]

@[simp] theorem traitsRest_down : Parser.down (traitsRest : Reads (n + 1) (List Member)) = traitsRest := by
  simp [traitsRest]

@[simp] theorem behind_down (test : Token → Bool) (p : Reads (n + 1) (List Member)) :
    (behind test p).down = behind test p.down := by
  simp [behind]

@[simp] theorem declaration_down (words : List String) (pos : Position) :
    (declaration self words pos).down = declaration self.down words pos := by
  simp [declaration]

@[simp] theorem member_down : (member self).down = member self.down := by simp [member]

@[simp] theorem members_down : (members self).down = members self.down := by simp [members]

/-! ## Statements -/

@[simp] theorem namespaceRest_down (pos : Position) :
    (namespaceRest self pos).down = namespaceRest self.down pos := by
  simp [namespaceRest]

@[simp] theorem importItem_down : Consuming.down (importItem : Takes (n + 1) Import) = importItem := by
  simp [importItem]

@[simp] theorem importsRest_down (pos : Position) :
    Parser.down (importsRest pos : Reads (n + 1) Stmt) = importsRest pos := by
  simp [importsRest]

@[simp] theorem classRest_down (first : Token) : (classRest self first).down = classRest self.down first := by
  simp [classRest]

@[simp] theorem interfaceRest_down (pos : Position) :
    (interfaceRest self pos).down = interfaceRest self.down pos := by
  refine Parser.bind_down_eq (by simp) fun name => Parser.bind_down_eq (acceptsWord_down _) fun _ => ?_
  rw [Parser.ite_down]
  congr 1
  all_goals
    refine Parser.bind_down_eq (by simp) fun parents => Parser.bind_down_eq members_down fun ms => ?_
    split <;> rfl

@[simp] theorem functionRest_down (pos : Position) :
    (functionRest self pos).down = functionRest self.down pos := by
  simp [functionRest]

@[simp] theorem elseIf_down : (elseIf self).down = elseIf self.down := by simp [elseIf]

@[simp] theorem branchRest_down (pos : Position) : (branchRest self pos).down = branchRest self.down pos := by
  simp [branchRest]

@[simp] theorem whileRest_down (pos : Position) : (whileRest self pos).down = whileRest self.down pos := by
  simp [whileRest]

@[simp] theorem forRest_down (pos : Position) : (forRest self pos).down = forRest self.down pos := by
  simp [forRest]

@[simp] theorem foreachRest_down (pos : Position) : (foreachRest self pos).down = foreachRest self.down pos := by
  simp [foreachRest]

@[simp] theorem catchRest_down (pos : Position) : (catchRest self pos).down = catchRest self.down pos := by
  simp [catchRest]

@[simp] theorem tryRest_down (pos : Position) : (tryRest self pos).down = tryRest self.down pos := by
  simp [tryRest]

@[simp] theorem exitRest_down (s : Stmt) : Parser.down (exitRest s : Reads (n + 1) Stmt) = exitRest s := by
  refine Parser.bind_down_eq rfl fun ts => ?_
  split <;> simp

@[simp] theorem returnRest_down (pos : Position) : (returnRest self pos).down = returnRest self.down pos := by
  simp [returnRest]

@[simp] theorem echoRest_down (pos : Position) : (echoRest self pos).down = echoRest self.down pos := by
  simp [echoRest]

@[simp] theorem throwRest_down (pos : Position) : (throwRest self pos).down = throwRest self.down pos := by
  simp [throwRest]

@[simp] theorem declareRest_down (pos : Position) :
    Parser.down (declareRest pos : Reads (n + 1) Stmt) = declareRest pos := by
  simp [declareRest]

@[simp] theorem keywordStmt?_down (t : Token) (word : String) (rest : List Token) :
    (keywordStmt? self t word rest).map Parser.down = keywordStmt? self.down t word rest := by
  unfold keywordStmt?
  split <;> simp

@[simp] theorem stmtRest?_down (t : Token) (rest : List Token) :
    (stmtRest? self t rest).map Parser.down = stmtRest? self.down t rest := by
  unfold stmtRest?
  split <;> simp

@[simp] theorem stmt_down : (stmt self).down = stmt self.down := by simp [stmt]

theorem Rules.succ_down (self : Rules (n + 1)) : self.succ.down = self.down.succ := by
  simp only [succ, down, expr_down, unary_down, suffixed_down, primary_down, stmt_down]

/-- The rules of a level are those of the level above, on fewer tokens. -/
theorem rules_down (n : Nat) : (rules (n + 1)).down = rules n := by
  induction n with
  | zero =>
    simp only [rules, Rules.zero, Rules.down, Rules.mk.injEq]
    exact ⟨Subsingleton.elim _ _, Subsingleton.elim _ _, Subsingleton.elim _ _, Subsingleton.elim _ _,
      Subsingleton.elim _ _⟩
  | succ n ih =>
    calc (rules (n + 2)).down
      _ = (rules (n + 1)).down.succ := Rules.succ_down _
      _ = rules (n + 1) := by rw [ih]; rfl

theorem rules_stmt_levelFree : Consuming.LevelFree fun n => (rules n).stmt :=
  Consuming.levelFree_of_down fun n => congrArg Rules.stmt (rules_down n)

theorem rules_expr_levelFree (least : Nat) : Consuming.LevelFree fun n => (rules n).expr least :=
  Consuming.levelFree_of_down fun n => congrArg (Rules.expr · least) (rules_down n)

end Grammar

end ClassScript
