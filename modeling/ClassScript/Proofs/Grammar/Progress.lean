import ClassScript.Proofs.Grammar.Level
import ClassScript.Proofs.Grammar.Located
/-!
# The parser ends and makes progress

Members and statements fail at tokens as expressions do, and so does a whole file. Reading a text ends with a
tree or with a fault of the text, and a statement or an expression that is read is not empty
(`parser_progresses`). An interface with a property is the one fault at a token that was read before, so the
rules for members also say where a property is.
-/

namespace ClassScript.Grammar

variable {n : Nat} {α : Type} {all : List Token}

/-! ## Members -/

/-- A property is where one of the tokens is. -/
def PropertyWithin (all : List Token) (m : Member) : Prop := ∀ d ∈ m.property?, ∃ t ∈ all, t.pos = d.pos

/-- What is read is made of such members. -/
abbrev MembersLocated (all : List Token) (p : Reads n (List Member)) : Prop :=
  p.Answers all (Fault.Within all) fun ms => ∀ m ∈ ms, PropertyWithin all m

@[inherit_doc MembersLocated]
abbrev TakesMembersLocated (all : List Token) (p : Takes n (List Member)) : Prop :=
  p.Answers all (Fault.Within all) fun ms => ∀ m ∈ ms, PropertyWithin all m

theorem here_run {ts : List Token} {h : ts.length < n} :
    here.run ts h = .ok ⟨(ts.head?.map (·.pos)).getD .unknown, ts, List.suffix_refl ts⟩ := rfl

/-- What is taken behind the position of the next token has the position of a token: there is nothing to take
behind the last one. -/
theorem before_here_located {f : Position → Takes n α} {Q : Position → α → Prop}
    (hf : ∀ pos, (f pos).Answers all (Fault.Within all) (Q pos)) :
    (Parser.before here f).Answers all (Fault.Within all) fun a => ∃ t ∈ all, Q t.pos a := by
  intro ts h hall
  dsimp only [Parser.before]
  rw [here_run]
  dsimp only
  have ha := hf ((ts.head?.map (·.pos)).getD .unknown) ts h hall
  cases ts with
  | nil =>
    split at ha
    · simp only [*]
    · next r _ => exact absurd r.shorter (Nat.not_lt_zero _)
  | cons t rest =>
    split at ha
    · simp only [*]
    · simp only [*]
      exact ⟨t, hall (.head _), ha⟩

theorem traitsRest_located : MembersLocated all (traitsRest : Reads n (List Member)) := by
  refine .after names_located fun traits => ?_
  refine .after (refuseIf_located _ .traitAdaptation) fun _ => ?_
  exact .after endStatement_located fun _ => .pure (List.forall_mem_singleton.2 nofun)

theorem behind_located {test : Token → Bool} {p : Reads n (List Member)} (hp : MembersLocated all p) :
    TakesMembersLocated all (behind test p) := by
  refine .bind (.take fun ts hts => ?_) fun _ _ => hp
  exact expected_within hts _

section Rules

variable {self : Rules n} (hself : self.Located all)

include hself

theorem constant_located (modifiers : Modifiers) :
    (constant self modifiers).Answers all (Fault.Within all) (PropertyWithin all) := by
  refine .before here_located fun pos _ => ?_
  refine .bind word_located fun name _ => ?_
  refine .after (symbol_located "=") fun _ => ?_
  exact .after (hself.expr 0).parser fun value => .pure nofun

theorem property_located (modifiers : Modifiers) :
    (property self modifiers).Answers all (Fault.Within all) (PropertyWithin all) := by
  refine (before_here_located (Q := fun pos m => ∀ d ∈ m.property?, pos = d.pos) fun pos => ?_).mono
    fun m ⟨t, ht, hm⟩ d hd => ⟨t, ht, hm d hd⟩
  refine .bind variableName_located fun name _ => ?_
  refine .after (optionally_located (hself.expr 0)) fun default => .pure ?_
  rintro d ⟨⟩
  rfl

theorem constantsRest_located (modifiers : Modifiers) : MembersLocated all (constantsRest self modifiers) := by
  refine .bind .ahead fun ts _ => ?_
  extract_lets finish
  have hfinish (u : Unit) : MembersLocated all (finish u) := by
    refine .bind (Consuming.Answers.separated (constant_located hself modifiers)).parser fun ms hms => ?_
    exact .after endStatement_located fun _ => .pure hms
  split
  · exact .after skip_located hfinish
  · exact hfinish ()

theorem methodRest_located (modifiers : Modifiers) (pos : Position) :
    MembersLocated all (methodRest self modifiers pos) := by
  refine .after (accepts_located "&") fun byRefReturn => ?_
  refine .after word_located.parser fun name => ?_
  refine .after (params_located hself) fun params => ?_
  refine .after returnType_located fun _ => ?_
  refine .after (accepts_located ";") fun bodiless => ?_
  refine .iteAfter (.pure trivial) (.map (block_located hself)) fun body => ?_
  exact .pure (List.forall_mem_singleton.2 nofun)

theorem properties_located (modifiers : Modifiers) : TakesMembersLocated all (properties self modifiers) := by
  unfold properties
  extract_lets type
  have htype : Located all type := by
    refine .bind .ahead fun ts _ => ?_
    split
    · exact .pure trivial
    · exact .discard typeHint_located.parser
  refine .before htype fun _ _ => ?_
  refine .bind (.separated (property_located hself modifiers)) fun ms hms => ?_
  exact .after endStatement_located fun _ => .pure hms

theorem declaration_located (words : List String) (pos : Position) :
    TakesMembersLocated all (declaration self words pos) := by
  refine .look fun ts _ => ?_
  split
  · exact behind_located (constantsRest_located hself _)
  · split
    · exact behind_located (methodRest_located hself _ pos)
    · exact properties_located hself _

theorem member_located : TakesMembersLocated all (member self) := by
  refine .look fun ts hts => ?_
  split
  · exact .fail (expected_within hts _)
  · split
    · exact behind_located traitsRest_located
    · refine .before here_located fun pos _ => ?_
      exact .before modifiers_located fun words _ => declaration_located hself words pos

theorem members_located : MembersLocated all (members self) := by
  refine .after (symbol_located _) fun _ => ?_
  refine .bind (.many (member_located hself)) fun mss hmss => ?_
  refine .after (symbol_located _) fun _ => .pure fun m hm => ?_
  obtain ⟨ms, hms, hm⟩ := List.mem_flatten.1 hm
  exact hmss ms hms m hm

/-! ## Declarations -/

theorem classRest_located (first : Token) : Located all (classRest self first) := by
  unfold classRest
  extract_lets finish
  have hfinish (modifiers : List Token) : Located all (finish modifiers) := by
    refine .after word_located.parser fun name => ?_
    refine .after (acceptsWord_located "extends") fun derived => ?_
    refine .iteAfter (.map name_located.parser) (.pure trivial) fun parent => ?_
    refine .after (acceptsWord_located "implements") fun listed => ?_
    refine .iteAfter names_located (.pure trivial) fun interfaces => ?_
    exact .bind (members_located hself) fun members _ => .pure trivial
  split
  · refine .after .takeWhile fun more => ?_
    refine .after (keyword_located "class") fun _ => ?_
    exact .after (.pure trivial) hfinish
  · exact .after (.pure trivial) hfinish

theorem interfaceRest_located (pos : Position) : Located all (interfaceRest self pos) := by
  refine .after word_located.parser fun name => ?_
  refine .after (acceptsWord_located "extends") fun derived => ?_
  refine .iteAfter names_located (.pure trivial) fun parents => ?_
  refine .bind (members_located hself) fun ms hms => ?_
  split
  · next d hd =>
    obtain ⟨m, hm, hd⟩ := List.exists_of_findSome?_eq_some hd
    refine .fail ?_
    rintro _ ⟨⟩
    exact hms m hm d hd
  · exact .pure trivial

theorem namespaceRest_located (pos : Position) : Located all (namespaceRest self pos) := by
  refine .after .take? fun name => ?_
  refine .bind .ahead fun ts _ => .ite ?_ ?_
  · exact .after (block_located hself) fun body => .pure trivial
  · extract_lets finish
    have hfinish (u : Unit) : Located all (finish u) := by
      refine .after (symbol_located ";") fun _ => ?_
      exact .bind (.many hself.stmt) fun body _ => .pure trivial
    split
    · exact .after (failExpected_located .namespaceName) hfinish
    · exact hfinish ()

omit hself in
theorem importsRest_located (pos : Position) : Located all (importsRest pos : Reads n Stmt) := by
  refine .after (refuseIf_located _ .importedFunctions) fun _ => ?_
  refine .after (separated_located importItem_located) fun items => ?_
  exact .after endStatement_located fun _ => .pure trivial

theorem functionRest_located (pos : Position) : Located all (functionRest self pos) := by
  refine .after (.discard (accepts_located "&")) fun _ => ?_
  refine .after word_located.parser fun name => ?_
  refine .after (.discard (params_located hself)) fun _ => ?_
  refine .after returnType_located fun _ => ?_
  exact .after (.discard (block_located hself)) fun _ => .pure trivial

/-! ## Control flow -/

theorem elseIf_located : Located all (elseIf self) := by
  refine .after (parenthesised_located hself) fun test => ?_
  exact .after (body_located hself) fun body => .pure trivial

theorem branchRest_located (pos : Position) : Located all (branchRest self pos) := by
  refine .after (parenthesised_located hself) fun test => ?_
  refine .after (body_located hself) fun thenBody => ?_
  refine .after (.loop trivial fun bs _ t rest p _ hp => ?_) fun elseIfs => ?_
  · split at hp
    · cases hp
      exact .after (elseIf_located hself) fun branch => .pure trivial
    · split at hp
      · cases hp
        refine .after skip_located fun _ => ?_
        exact .after (elseIf_located hself) fun branch => .pure trivial
      · cases hp
  · refine .after (acceptsWord_located "else") fun found => ?_
    exact .iteAfter (.map (body_located hself)) (.pure trivial) fun otherwise => .pure trivial

theorem whileRest_located (pos : Position) : Located all (whileRest self pos) := by
  refine .after (parenthesised_located hself) fun test => ?_
  exact .after (body_located hself) fun body => .pure trivial

theorem forRest_located (pos : Position) : Located all (forRest self pos) := by
  refine .after (symbol_located "(") fun _ => ?_
  refine .after (listUntil_located (hself.expr 0)) fun init => ?_
  refine .after (listUntil_located (hself.expr 0)) fun test => ?_
  refine .after (listUntil_located (hself.expr 0)) fun step => ?_
  exact .after (body_located hself) fun body => .pure trivial

theorem foreachRest_located (pos : Position) : Located all (foreachRest self pos) := by
  refine .after (symbol_located "(") fun _ => ?_
  refine .after (hself.expr 0).parser fun subject => ?_
  refine .after (keyword_located "as") fun _ => ?_
  refine .after (accepts_located "&") fun byRef => ?_
  refine .after (hself.expr 0).parser fun first => ?_
  refine .after (accepts_located "=>") fun found => ?_
  extract_lets finish keyed
  have hfinish (bound : Option Expr × Expr × Bool) : Located all (finish bound) := by
    refine .after (symbol_located ")") fun _ => ?_
    exact .after (body_located hself) fun body => .pure trivial
  have hkeyed (u : Unit) : Located all (keyed u) := by
    refine .after (accepts_located "&") fun byRef => ?_
    refine .after (hself.expr 0).parser fun value => ?_
    exact .after (.pure trivial) hfinish
  refine .ite (.ite ?_ (hkeyed ())) (.after (.pure trivial) hfinish)
  exact .after (refuse_located .referenceKeys) hkeyed

theorem catchRest_located (pos : Position) : Located all (catchRest self pos) := by
  refine .after (symbol_located "(") fun _ => ?_
  refine .after (separated_located name_located) fun types => ?_
  refine .after (refuseIf_located _ .catchWithoutVariable) fun _ => ?_
  refine .after variableName_located.parser fun var => ?_
  refine .after (symbol_located ")") fun _ => ?_
  exact .after (block_located hself) fun body => .pure trivial

theorem tryRest_located (pos : Position) : Located all (tryRest self pos) := by
  refine .after (block_located hself) fun body => ?_
  refine .after (.loop trivial fun cs _ t rest p _ hp => ?_) fun catches => ?_
  · split at hp
    · cases hp
      exact .after (catchRest_located hself t.pos) fun clause => .pure trivial
    · cases hp
  · refine .after (acceptsWord_located "finally") fun found => ?_
    refine .iteAfter (.map (block_located hself)) (.pure trivial) fun cleanup => .ite ?_ (.pure trivial)
    exact .after (failExpected_located .catchOrFinally) fun _ => .pure trivial

omit hself in
theorem exitRest_located (s : Stmt) : Located all (exitRest s : Reads n Stmt) := by
  refine .bind .ahead fun ts _ => ?_
  extract_lets finish level
  have hfinish (u : Unit) : Located all (finish u) := .after endStatement_located fun _ => .pure trivial
  split
  · refine .ite (.after skip_located hfinish) ?_
    refine .after (refuse_located .multiLevelExit) fun _ => ?_
    exact .after skip_located hfinish
  · exact hfinish ()

/-! ## Simple statements -/

theorem returnRest_located (pos : Position) : Located all (returnRest self pos) := by
  refine .bind .ahead fun ts _ => ?_
  refine .iteAfter (.pure trivial) (.map (hself.expr 0).parser) fun value => ?_
  exact .after endStatement_located fun _ => .pure trivial

theorem echoRest_located (pos : Position) : Located all (echoRest self pos) := by
  refine .after (separated_located (hself.expr 0)) fun exprs => ?_
  exact .after endStatement_located fun _ => .pure trivial

theorem throwRest_located (pos : Position) : Located all (throwRest self pos) := by
  refine .after (hself.expr 0).parser fun value => ?_
  exact .after endStatement_located fun _ => .pure trivial

omit hself in
theorem declareRest_located (pos : Position) : Located all (declareRest pos : Reads n Stmt) := by
  refine .after (symbol_located "(") fun _ => ?_
  refine .after (.discard .takeWhile) fun _ => ?_
  refine .after (symbol_located ")") fun _ => ?_
  exact .after endStatement_located fun _ => .pure trivial

/-! ## Statements -/

theorem keywordStmt?_located {t : Token} {word : String} {rest : List Token} (ht : [t] ⊆ all) {p : Reads n Stmt}
    (hp : keywordStmt? self t word rest = some p) : Located all p := by
  unfold keywordStmt? at hp
  split at hp
  · cases hp; exact namespaceRest_located hself _
  · cases hp; exact importsRest_located _
  · cases hp; exact classRest_located hself _
  · cases hp; exact classRest_located hself _
  · cases hp; exact classRest_located hself _
  · split at hp
    · cases hp; exact classRest_located hself _
    · cases hp
  · cases hp; exact interfaceRest_located hself _
  · split at hp
    · cases hp
    · cases hp; exact functionRest_located hself _
  · cases hp; exact branchRest_located hself _
  · cases hp; exact whileRest_located hself _
  · cases hp; exact forRest_located hself _
  · cases hp; exact foreachRest_located hself _
  · cases hp; exact tryRest_located hself _
  · cases hp; exact exitRest_located _
  · cases hp; exact exitRest_located _
  · cases hp; exact returnRest_located hself _
  · cases hp; exact echoRest_located hself _
  · cases hp; exact throwRest_located hself _
  · cases hp; exact declareRest_located _
  · split at hp
    · cases hp
    · cases hp; exact .fail (refused_within ht _)
  · split at hp
    · cases hp; exact .fail (refused_within ht _)
    · cases hp

theorem stmtRest?_located {t : Token} {rest : List Token} (h : t :: rest ⊆ all) {p : Reads n Stmt}
    (hp : stmtRest? self t rest = some p) : Located all p := by
  unfold stmtRest? at hp
  split at hp
  · cases hp
    exact .after (blockRest_located hself) fun _ => .pure trivial
  · cases hp
    exact .pure trivial
  · cases hp
    exact .fail (refused_within (token_subset h) _)
  · split at hp
    · cases hp
    · exact keywordStmt?_located hself (token_subset h) hp
  · cases hp

theorem stmt_located : TakesLocated all (stmt self) := by
  refine .firstOr (fun _ _ _ h hp => stmtRest?_located hself h hp) ?_
  refine .andThen (expr_located hself 0) fun e _ => ?_
  exact .after endStatement_located fun _ => .pure trivial

end Rules

/-- At every level, the faults are at tokens. -/
theorem rules_located (all : List Token) (n : Nat) : (rules n).Located all := by
  induction n with
  | zero => exact ⟨fun _ => .never, .never, .never, .never, .never⟩
  | succ n ih => exact ⟨expr_located ih, unary_located ih, suffixed_located ih, primary_located ih, stmt_located ih⟩

/-! ## Progress -/

/-- The positions of the tokens from an index on, and of the end of the text. -/
def positionsFrom (tokens : Tokens) (i : Nat) : List Position :=
  (tokens.list.drop i).map (·.pos) ++ [tokens.finish]

/-- From every token on, the rule goes at least one token forward and no further than the end, or fails at a
token that it was given or at the end. -/
def Advances (tokens : Tokens) (p : Takes n α) : Prop :=
  ∀ i h, match p.run (tokens.list.drop i) h with
    | .ok r => ∃ j, i < j ∧ j ≤ tokens.list.length ∧ r.rest = tokens.list.drop j
    | .error f => (f.diagnostic tokens.finish).pos ∈ positionsFrom tokens i

theorem diagnostic_pos_mem {tokens : Tokens} {i : Nat} {f : Fault} (h : f.Within (tokens.list.drop i)) :
    (f.diagnostic tokens.finish).pos ∈ positionsFrom tokens i := by
  obtain ⟨cause, pos⟩ := f
  cases pos with
  | none => exact List.mem_append_right _ (.head _)
  | some pos =>
    obtain ⟨t, ht, rfl⟩ := h _ rfl
    exact List.mem_append_left _ (List.mem_map_of_mem ht)

/-- A shorter end of the tokens starts further on. -/
theorem exists_drop_of_suffix {ts rest : List Token} {i : Nat} (hrest : rest <:+ ts.drop i)
    (hshorter : rest.length < (ts.drop i).length) : ∃ j, i < j ∧ j ≤ ts.length ∧ rest = ts.drop j := by
  obtain ⟨read, hread⟩ := hrest
  have hlength := congrArg List.length hread
  simp only [List.length_append, List.length_drop] at hlength hshorter
  refine ⟨i + read.length, by omega, by omega, ?_⟩
  rw [← List.drop_drop, ← hread, List.drop_left]

theorem advances {tokens : Tokens} {p : Takes n α} (hp : ∀ all, TakesLocated all p) : Advances tokens p := by
  intro i h
  have ha := hp _ (tokens.list.drop i) h (List.Subset.refl _)
  split
  · next r _ => exact exists_drop_of_suffix r.suffix r.shorter
  · next f hf =>
    rw [hf] at ha
    exact diagnostic_pos_mem ha

theorem statements_pos_mem {tokens : Tokens} {d : Diagnostic} (h : statements tokens = .error d) :
    d.pos ∈ positionsFrom tokens 0 := by
  unfold statements at h
  split at h
  · next f hf =>
    cases h
    have hmany : (file (rules (tokens.list.length + 1))).Answers tokens.list (Fault.Within tokens.list) fun _ => _ :=
      .many (rules_located _ _).stmt
    have ha := hmany tokens.list (Nat.lt_succ_self _) (List.Subset.refl _)
    rw [hf] at ha
    exact diagnostic_pos_mem (i := 0) ha
  · cases h

/-! ## Kinds of faults -/

theorem statements_kind {tokens : Tokens} {d : Diagnostic} (h : statements tokens = .error d) :
    d.kind = .parse ∨ d.kind = .unsupported := by
  unfold statements at h
  split at h
  · next f _ =>
    cases h
    cases hcause : f.cause <;> simp [Fault.diagnostic, Cause.kind, hcause]
  · cases h

theorem tokensFrom_kind {pos : Position} {cs : List Char} {d : Diagnostic}
    (h : Token.tokensFrom pos cs = .error d) : d.kind = .parse ∨ d.kind = .unsupported := by
  have hfault (f : ScanFault) (pos : Position) (h : f.diagnostic.placed pos = d) :
      d.kind = .parse ∨ d.kind = .unsupported := by
    subst h
    cases f <;> simp [ScanFault.diagnostic, Diagnostic.placed]
  fun_induction Token.tokensFrom pos cs with
  | case1 => cases h
  | case2 => exact hfault _ _ (Except.error.inj h)
  | case3 => cases h
  | case4 pos c rest best text _ _ ih =>
    cases hlexeme : Token.ofLexeme best.1 c text with
    | error f =>
      rw [hlexeme] at h
      exact hfault _ _ (Except.error.inj h)
    | ok kind =>
      rw [hlexeme] at h
      cases hmore : Token.tokensFrom (pos.after text) (rest.drop (best.2 - 1)) with
      | error d' =>
        rw [hmore] at h ih
        cases h
        exact ih rfl
      | ok more =>
        rw [hmore] at h
        cases kind <;> cases h

theorem parse_kind {path source : String} {d : Diagnostic} (h : SourceFile.parse path source = .error d) :
    d.kind = .parse ∨ d.kind = .unsupported := by
  have hfile (d : Diagnostic) : (d.inFile path).kind = d.kind := by
    unfold Diagnostic.inFile
    split <;> rfl
  unfold SourceFile.parse at h
  cases hscan : Token.scan source with
  | error d' =>
    rw [hscan] at h
    cases h
    rw [hfile]
    exact tokensFrom_kind hscan
  | ok tokens =>
    rw [hscan] at h
    cases hstatements : statements tokens with
    | error d' =>
      dsimp only [Bind.bind, Except.bind] at h
      rw [hstatements] at h
      cases h
      rw [hfile]
      exact statements_kind hstatements
    | ok stmts =>
      dsimp only [Bind.bind, Except.bind] at h
      rw [hstatements] at h
      cases h

/-! ## The parser -/

/-- Reading a text gives a tree or a fault of the text, and a fault of the grammar is at a token. Wherever a
statement or an expression starts, it goes forward, or fails at a token from there on; and this does not
come from the bound on the tokens, which changes nothing. -/
theorem parser_progresses :
    (∀ path source, (∃ f, SourceFile.parse path source = .ok f) ∨
      ∃ d, SourceFile.parse path source = .error d ∧ (d.kind = .parse ∨ d.kind = .unsupported)) ∧
    (∀ tokens, (∃ ss, statements tokens = .ok ss) ∨
      ∃ d, statements tokens = .error d ∧ d.pos ∈ positionsFrom tokens 0) ∧
    (∀ tokens n, Advances tokens (rules n).stmt ∧ ∀ least, Advances tokens ((rules n).expr least)) ∧
    Consuming.LevelFree (fun n => (rules n).stmt) ∧
    ∀ least, Consuming.LevelFree fun n => (rules n).expr least := by
  refine ⟨fun path source => ?_, fun tokens => ?_, fun tokens n => ⟨?_, fun least => ?_⟩, rules_stmt_levelFree,
    rules_expr_levelFree⟩
  · cases h : SourceFile.parse path source with
    | ok f => exact .inl ⟨f, rfl⟩
    | error d => exact .inr ⟨d, rfl, parse_kind h⟩
  · cases h : statements tokens with
    | ok ss => exact .inl ⟨ss, rfl⟩
    | error d => exact .inr ⟨d, rfl, statements_pos_mem h⟩
  · exact advances fun all => (rules_located all n).stmt
  · exact advances fun all => (rules_located all n).expr least

end ClassScript.Grammar
