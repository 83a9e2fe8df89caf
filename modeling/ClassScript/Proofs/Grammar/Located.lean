import ClassScript.Grammar
import ClassScript.Proofs.Grammar.Answers
/-!
# Where a text is faulty

Every fault that a rule raises is at one of the tokens that it was given, or at the end of the text
(`rules_located`).
-/

namespace ClassScript.Grammar

variable {n : Nat} {α : Type} {all : List Token} {Q : α → Prop}

/-- The fault is at one of the tokens, or at the end of the text. -/
def Fault.Within (all : List Token) (f : Fault) : Prop := ∀ pos ∈ f.pos, ∃ t ∈ all, t.pos = pos

theorem within_of_head {ts : List Token} (h : ts ⊆ all) {cause : Cause} :
    Fault.Within all ⟨cause, ts.head?.map (·.pos)⟩ := by
  intro pos hpos
  obtain ⟨t, ht, rfl⟩ := Option.map_eq_some_iff.1 hpos
  exact ⟨t, h (List.mem_of_mem_head? ht), rfl⟩

theorem expected_within {ts : List Token} (h : ts ⊆ all) (what : Expected) : (expected what ts).Within all :=
  within_of_head h

theorem refused_within {ts : List Token} (h : ts ⊆ all) (feature : Feature) :
    (refused feature ts).Within all := within_of_head h

theorem token_subset {t : Token} {rest : List Token} (h : t :: rest ⊆ all) : [t] ⊆ all :=
  List.cons_subset.2 ⟨h (.head _), List.nil_subset _⟩

/-- The faults of the rule are at tokens. -/
abbrev Located (all : List Token) (p : Reads n α) : Prop := p.Answers all (Fault.Within all) fun _ => True

@[inherit_doc Located]
abbrev TakesLocated (all : List Token) (p : Takes n α) : Prop := p.Answers all (Fault.Within all) fun _ => True

/-! ## The smallest parts -/

theorem failExpected_located (what : Expected) :
    (failExpected what : Reads n α).Answers all (Fault.Within all) Q := by
  refine .bind .ahead fun ts hts => ?_
  exact .fail (expected_within hts what)

theorem refuse_located (feature : Feature) : (refuse feature : Reads n α).Answers all (Fault.Within all) Q := by
  refine .bind .ahead fun ts hts => ?_
  exact .fail (refused_within hts feature)

theorem refuseIf_located (shows : List Token → Bool) (feature : Feature) :
    Located all (refuseIf shows feature : Reads n Unit) := by
  refine .bind .ahead fun ts _ => ?_
  split
  · exact refuse_located feature
  · exact .pure trivial

theorem here_located : Located all (here : Reads n Position) := .bind .ahead fun _ _ => .pure trivial

theorem skip_located : Located all (skip : Reads n Unit) := .discard .accept

theorem accepts_located (s : String) : Located all (accepts s : Reads n Bool) := .accept

theorem acceptsWord_located (w : String) : Located all (acceptsWord w : Reads n Bool) := .accept

theorem symbol_located (s : String) : Located all (symbol s : Reads n Unit) := by
  refine .after (accepts_located s) fun found => ?_
  split
  · exact .pure trivial
  · exact failExpected_located _

theorem keyword_located (w : String) : Located all (keyword w : Reads n Unit) := by
  refine .after (acceptsWord_located w) fun found => ?_
  split
  · exact .pure trivial
  · exact failExpected_located _

theorem word_located : TakesLocated all (word : Takes n String) := .take fun _ hts => expected_within hts .name

theorem variableName_located : TakesLocated all (variableName : Takes n String) :=
  .take fun _ hts => expected_within hts .variable

theorem name_located : TakesLocated all (name : Takes n Name) := .map word_located

/-- Items that say nothing of their own. -/
theorem separated_located {separator : Token → Bool} {item : Takes n α} (hitem : TakesLocated all item) :
    Located all (Parser.separated separator item).parser :=
  (Consuming.Answers.separated hitem).parser.mono fun _ _ => trivial

theorem names_located : Located all (names : Takes n (List Name)).parser := separated_located name_located

theorem endStatement_located : Located all (endStatement : Reads n Unit) := by
  refine .bind .ahead fun ts _ => ?_
  split
  · exact .pure trivial
  · exact symbol_located ";"

theorem listUntil_located {close : String} {item : Takes n α} (hitem : TakesLocated all item) :
    Located all (listUntil close item) := by
  refine .bind (.separatedUntil hitem) fun items _ => ?_
  exact .after (symbol_located close) fun _ => .pure trivial

theorem optionally_located {s : String} {p : Takes n α} (hp : TakesLocated all p) :
    Located all (optionally s p) := by
  refine .after (accepts_located s) fun found => ?_
  split
  · exact .after hp.parser fun value => .pure trivial
  · exact .pure trivial

theorem modifiers_located : Located all (modifiers : Reads n (List String)) :=
  .after .takeWhile fun _ => .pure trivial

theorem typeHint_located : TakesLocated all (typeHint : Takes n TypeHint) := by
  refine .before (accepts_located "?") fun nullable _ => ?_
  refine .bind name_located fun name _ => ?_
  exact .after (refuseIf_located _ .combinedTypes) fun _ => .pure trivial

theorem returnType_located : Located all (returnType : Reads n Unit) := .discard (optionally_located typeHint_located)

theorem capture_located : TakesLocated all (capture : Takes n Capture) := by
  refine .before (accepts_located "&") fun byRef _ => ?_
  exact .map variableName_located

theorem importItem_located : TakesLocated all (importItem : Takes n Import) := by
  refine .bind name_located fun name _ => ?_
  refine .after (refuseIf_located _ _) fun _ => ?_
  refine .after (acceptsWord_located _) fun renamed => ?_
  split
  · exact .after word_located.parser fun _ => .pure trivial
  · exact .pure trivial

theorem skipBlock_located : Located all (skipBlock : Reads n Unit) := by
  refine .after (.loop trivial fun depth _ t rest p _ hp => ?_) fun depth => ?_
  · -- a step counts braces and raises nothing
    split at hp
    · cases hp
    · split at hp
      · cases hp
        exact .pure trivial
      · split at hp
        all_goals
          cases hp
          exact .pure trivial
  · split
    · exact .pure trivial
    · exact failExpected_located _

theorem testedClass_located : Located all (testedClass : Reads n ClassRef) := by
  refine .bind .ahead fun ts _ => ?_
  split
  · exact .after skip_located fun _ => .pure trivial
  · exact .after skip_located fun _ => .pure trivial
  · exact failExpected_located _

/-- The faults of all rules are at tokens. -/
structure Rules.Located (all : List Token) (rules : Rules n) : Prop where
  expr : ∀ least, TakesLocated all (rules.expr least)
  unary : TakesLocated all rules.unary
  suffixed : TakesLocated all rules.suffixed
  primary : TakesLocated all rules.primary
  stmt : TakesLocated all rules.stmt

section Rules

variable {self : Rules n} (hself : self.Located all)

include hself

/-! ## Parameters and blocks -/

theorem param_located : TakesLocated all (param self) := by
  unfold param
  extract_lets intro
  have hintro : Located all intro := by
    refine .after here_located fun pos => ?_
    refine .after modifiers_located fun words => ?_
    refine .bind .ahead fun ts _ => ?_
    refine .iteAfter (.pure trivial) (.map typeHint_located.parser) fun type => ?_
    refine .after (accepts_located "&") fun byRef => ?_
    exact .after (accepts_located "...") fun variadic => .pure trivial
  refine .before hintro fun _ _ => ?_
  refine .bind variableName_located fun name _ => ?_
  exact .after (optionally_located (hself.expr 0)) fun default => .pure trivial

theorem params_located : Located all (params self) :=
  .after (symbol_located "(") fun _ => listUntil_located (param_located hself)

theorem blockRest_located : Located all (blockRest self) := by
  have hitem : TakesLocated all (.look fun ts =>
      if ts.isEmpty then .fail (expected (.symbol "\x7d") ts) else self.stmt) := by
    refine .look fun ts hts => ?_
    split
    · exact .fail (expected_within hts _)
    · exact hself.stmt
  refine .bind (.many hitem) fun stmts _ => ?_
  exact .after (symbol_located _) fun _ => .pure trivial

theorem block_located : Located all (block self) :=
  .after (symbol_located _) fun _ => blockRest_located hself

theorem body_located : Located all (body self) := by
  refine .after (refuseIf_located _ .alternativeBlocks) fun _ => ?_
  refine .bind .ahead fun ts _ => ?_
  split
  · exact block_located hself
  · exact .after hself.stmt.parser fun stmt => .pure trivial

theorem parenthesised_located : Located all (parenthesised self) := by
  refine .after (symbol_located "(") fun _ => ?_
  refine .after (hself.expr 0).parser fun e => ?_
  exact .after (symbol_located ")") fun _ => .pure trivial

/-! ## Arguments, array items and closures -/

theorem arg_located : TakesLocated all (arg self) := by
  refine .look fun ts hts => .ite (.fail (refused_within hts .namedArguments)) ?_
  refine .before (accepts_located "...") fun unpack _ => ?_
  refine .look fun ts hts => .ite (.fail (refused_within hts .callables)) ?_
  exact .map (hself.expr 0)

theorem argsRest_located : Located all (argsRest self) := listUntil_located (arg_located hself)

theorem args?_located : Located all (args? self) := by
  refine .after (accepts_located "(") fun found => ?_
  split
  · exact .after (argsRest_located hself) fun args => .pure trivial
  · exact .pure trivial

theorem item_located : TakesLocated all (item self) := by
  refine .look fun ts hts => .ite (.fail (refused_within hts .destructuring)) ?_
  refine .before (accepts_located "...") fun unpack _ => ?_
  refine .before (accepts_located "&") fun byRef _ => ?_
  refine .bind (hself.expr 0) fun e _ => .ite (.pure trivial) ?_
  -- a key, if an arrow follows
  refine .after (accepts_located "=>") fun keyed => .ite ?_ (.pure trivial)
  refine .after (accepts_located "&") fun byRef => ?_
  exact .after (hself.expr 0).parser fun value => .pure trivial

theorem closureRest_located (pos : Position) (isStatic : Bool) : Located all (closureRest self pos isStatic) := by
  refine .after (accepts_located "&") fun byRefReturn => ?_
  refine .after (params_located hself) fun params => ?_
  refine .after (acceptsWord_located "use") fun captured => ?_
  extract_lets finish
  have hfinish (captures : List Capture) : Located all (finish captures) := by
    refine .after returnType_located fun _ => ?_
    exact .after (block_located hself) fun body => .pure trivial
  refine .ite ?_ (.after (.pure trivial) hfinish)
  refine .after (symbol_located "(") fun _ => ?_
  exact .after (listUntil_located capture_located) hfinish

/-! ## Accesses -/

theorem memberName_located : Located all (memberName self) := by
  refine .bind .ahead fun ts _ => ?_
  split
  · exact .after skip_located fun _ => .pure trivial
  · exact .after skip_located fun _ => .pure trivial
  · split
    · refine .after skip_located fun _ => ?_
      refine .after (hself.expr 0).parser fun e => ?_
      exact .after (symbol_located _) fun _ => .pure trivial
    · exact failExpected_located .memberName

theorem staticAccess_located (cls : ClassRef) (pos : Position) : Located all (staticAccess self cls pos) := by
  refine .bind .ahead fun ts _ => ?_
  split
  · refine .after skip_located fun _ => ?_
    exact .after (refuseIf_located _ .variableStaticCalls) fun _ => .pure trivial
  · refine .after skip_located fun _ => ?_
    refine .after (args?_located hself) fun args => ?_
    split <;> exact .pure trivial
  · exact failExpected_located .memberAfterColons

theorem suffix?_located {e : Expr} {t : Token} {p : Reads n Expr} (hp : suffix? self e t = some p) :
    Located all p := by
  unfold suffix? at hp
  split at hp
  · cases hp
    refine .after (memberName_located hself) fun name => ?_
    refine .after (args?_located hself) fun args => ?_
    split <;> exact .pure trivial
  · cases hp
    refine .bind .ahead fun ts _ => ?_
    refine .iteAfter (.pure trivial) (.map (hself.expr 0).parser) fun dim => ?_
    exact .after (symbol_located "]") fun _ => .pure trivial
  · cases hp
    exact .after (argsRest_located hself) fun args => .pure trivial
  · cases hp
    exact staticAccess_located hself _ _
  · cases hp
    exact .pure trivial
  · cases hp
    exact .pure trivial
  · cases hp

theorem suffixes_located (e : Expr) : Located all (suffixes self e) :=
  .loop trivial fun _ _ _ _ _ _ hp => suffix?_located hself hp

/-! ## Primary expressions -/

theorem anonymousClassRest_located (pos : Position) : Located all (anonymousClassRest self pos) := by
  have hend : Located all (do
      symbol "\x7b"
      skipBlock
      return Expr.anonymousClass pos : Reads n Expr) := by
    refine .after (symbol_located _) fun _ => ?_
    exact .after skipBlock_located fun _ => .pure trivial
  have himplements : Located all (do
      if ← acceptsWord "implements" then discard names.parser
      symbol "\x7b"
      skipBlock
      return Expr.anonymousClass pos : Reads n Expr) := by
    refine .after (acceptsWord_located "implements") fun found => ?_
    split
    · exact .after (.discard names_located) fun _ => hend
    · exact hend
  refine .after (.discard (args?_located hself)) fun _ => ?_
  refine .after (acceptsWord_located "extends") fun found => ?_
  split
  · exact .after (.discard word_located.parser) fun _ => himplements
  · exact himplements

theorem newRest_located (pos : Position) : Located all (newRest self pos) := by
  refine .after (acceptsWord_located "class") fun anonymous => .ite (anonymousClassRest_located hself pos) ?_
  refine .bind .ahead fun ts _ => ?_
  extract_lets finish
  have hfinish (cls : ClassRef) : Located all (finish cls) :=
    .after (args?_located hself) fun args => .pure trivial
  split
  · exact .after skip_located fun _ => .after (.pure trivial) hfinish
  · exact .after skip_located fun _ => .after (.pure trivial) hfinish
  · split
    · exact .after (.map (parenthesised_located hself)) hfinish
    · exact .after (failExpected_located .className) hfinish

theorem nameExpr_located {t : Token} {raw : String} {rest : List Token} (h : t :: rest ⊆ all) :
    Located all (nameExpr self t raw rest) := by
  unfold nameExpr
  extract_lets pos plain
  have hplain : Located all plain := by
    refine .after (accepts_located "::") fun found => .ite (staticAccess_located hself _ _) ?_
    refine .after (args?_located hself) fun args => ?_
    split <;> exact .pure trivial
  have ht := token_subset h
  refine .ite hplain ?_
  split
  · exact .pure trivial
  · exact .pure trivial
  · exact .pure trivial
  · exact newRest_located hself pos
  · exact closureRest_located hself pos false
  · exact .fail (refused_within ht _)
  · refine .ite (.after skip_located fun _ => ?_) hplain
    exact .after (listUntil_located (item_located hself)) fun items => .pure trivial
  · refine .ite (.after skip_located fun _ => ?_) hplain
    exact .after (argsRest_located hself) fun args => .pure trivial
  · refine .ite (.after here_located fun pos => ?_) hplain
    exact .after skip_located fun _ => closureRest_located hself pos true
  · exact .ite (.fail (refused_within ht _)) hplain

theorem primary_located : TakesLocated all (primary self) := by
  refine .first (expected_within (List.nil_subset _) _) fun t rest h => ?_
  have ht := token_subset h
  split
  · exact .pure trivial
  · exact .pure trivial
  · exact .pure trivial
  · exact .pure trivial
  · exact .fail (refused_within ht _)
  · exact nameExpr_located hself h
  · refine .after (hself.expr 0).parser fun e => ?_
    exact .after (symbol_located ")") fun _ => .pure trivial
  · exact .after (listUntil_located (item_located hself)) fun items => .pure trivial
  · refine .after (accepts_located _) fun braced => ?_
    split
    · refine .after (hself.expr 0).parser fun e => ?_
      exact .after (symbol_located _) fun _ => .pure trivial
    · exact .after hself.primary.parser fun e => .pure trivial
  · exact .fail (expected_within ht _)

theorem suffixed_located : TakesLocated all (suffixed self) :=
  .andThen (primary_located hself) fun e _ => suffixes_located hself e

/-! ## Operators -/

theorem before?_located {t : Token} {rest : List Token} (h : t :: rest ⊆ all) {p : Reads n Expr}
    (hp : before? self t rest = some p) : Located all p := by
  have ht := token_subset h
  unfold before? at hp
  split at hp
  · cases hp
    exact .after (hself.expr _).parser fun _ => .pure trivial
  · split at hp
    · cases hp
      exact .fail (refused_within ht _)
    · cases hp
      exact .fail (refused_within ht _)
    · cases hp
      exact .after hself.suffixed.parser fun _ => .pure trivial
    · cases hp
      exact .after hself.suffixed.parser fun _ => .pure trivial
    · split at hp
      · split at hp
        · split at hp
          · cases hp
            refine .after skip_located fun _ => ?_
            refine .after skip_located fun _ => ?_
            exact .after (hself.expr _).parser fun e => .pure trivial
          · cases hp
        · cases hp
      · cases hp
    · cases hp

theorem unary_located : TakesLocated all (unary self) := by
  refine .firstOr (fun _ _ _ h hp => before?_located hself h hp) (.look fun ts _ => ?_)
  refine .andThen (suffixed_located hself) fun base _ => ?_
  refine .after (accepts_located "**") fun found => .ite ?_ (.pure trivial)
  exact .after hself.unary.parser fun e => .pure trivial

theorem operator?_located {least : Nat} {left : Expr} {t : Token} (ht : [t] ⊆ all) {p : Reads n Expr}
    (hp : operator? self least left t = some p) : Located all p := by
  unfold operator? at hp
  split at hp
  · split at hp
    · cases hp
      split
      · refine .after (refuseIf_located _ .assignByReference) fun _ => ?_
        exact .after (hself.expr _).parser fun e => .pure trivial
      · exact .after (hself.expr _).parser fun e => .pure trivial
    · split at hp
      · cases hp
        exact .fail (refused_within ht _)
      · cases hp
        exact .fail (within_of_head ht)
  · split at hp
    · cases hp
      exact .fail (refused_within ht _)
    · split at hp
      · split at hp
        · cases hp
        · cases hp
          refine .after (accepts_located ":") fun short => ?_
          extract_lets finish
          have hfinish (whenTrue : Option Expr) : Located all (finish whenTrue) :=
            .after (hself.expr _).parser fun whenFalse => .pure trivial
          refine .ite (.after (.pure trivial) hfinish) ?_
          refine .after (hself.expr _).parser fun e => ?_
          exact .after (symbol_located ":") fun _ => .after (.pure trivial) hfinish
      · split at hp
        · split at hp
          · cases hp
          · cases hp
            exact .after testedClass_located fun _ => .pure trivial
        · split at hp
          · cases hp
          · split at hp
            · cases hp
            · cases hp
              exact .after (hself.expr _).parser fun _ => .pure trivial

theorem expr_located (least : Nat) : TakesLocated all (expr self least) := by
  refine .andThen (unary_located hself) fun e _ => ?_
  refine .loop trivial fun left _ t rest p h hp => ?_
  exact operator?_located hself (token_subset h) hp

end Rules

end ClassScript.Grammar
