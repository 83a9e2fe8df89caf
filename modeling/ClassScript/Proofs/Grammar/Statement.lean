import ClassScript.Grammar
import ClassScript.Proofs.Grammar.Written
/-!
# Statements as a text has them

Members and statements are made of what the rules give, and so is a file: parsing leaves every part
untouched (`SourceFile.parse_untouched`).
-/

namespace ClassScript.Grammar

section Rules

variable {n : Nat} {self : Rules n} (hself : self.Written)

include hself

/-! ## Members -/

theorem constant_written (modifiers : Modifiers) : (constant self modifiers).Gives WrittenMember := by
  refine .before fun pos => .bind (.any _) fun name _ => .after fun _ => ?_
  exact .bind (hself.expr 0).parser fun value hvalue => .pure (List.forall_mem_singleton.2 hvalue)

theorem property_written (modifiers : Modifiers) : (property self modifiers).Gives WrittenMember := by
  refine .before fun pos => .bind (.any _) fun name _ => ?_
  refine .bind (optionally_gives (hself.expr 0)) fun default hdefault => .pure ?_
  exact List.forall_mem_append.2 ⟨List.forall_mem_map.2 hdefault, nofun⟩

theorem constantsRest_written (modifiers : Modifiers) :
    (constantsRest self modifiers).Gives fun ms => ∀ m ∈ ms, WrittenMember m := by
  refine .after fun _ => ?_
  extract_lets finish
  have hfinish (u : Unit) : (finish u).Gives fun ms => ∀ m ∈ ms, WrittenMember m := by
    refine .bind (Consuming.Gives.separated (constant_written hself modifiers)).parser fun ms hms => ?_
    exact .after fun _ => .pure hms
  exact .ite (.after hfinish) (hfinish ())

theorem methodRest_written (modifiers : Modifiers) (pos : Position) :
    (methodRest self modifiers pos).Gives fun ms => ∀ m ∈ ms, WrittenMember m := by
  refine .after fun byRefReturn => .after fun name => ?_
  refine .bind (params_written hself) fun ps hps => ?_
  refine .after fun _ => .after fun bodiless => ?_
  refine .iteBind (Q := fun body => ∀ s ∈ body.getD [], WrittenStmt s) (.pure nofun)
    (.map (block_written hself)) fun body hbody => .pure (List.forall_mem_singleton.2 ?_)
  refine List.forall_mem_singleton.2 (Part.allWritten_iff.2 ⟨trivial, ?_⟩)
  exact List.forall_mem_append.2 ⟨List.forall_mem_map.2 hps, List.forall_mem_map.2 hbody⟩

theorem properties_written (modifiers : Modifiers) :
    (properties self modifiers).Gives fun ms => ∀ m ∈ ms, WrittenMember m := by
  unfold properties
  extract_lets type
  refine .before fun _ => .bind (.separated (property_written hself modifiers)) fun _ hms => ?_
  exact .after fun _ => .pure hms

omit hself in
theorem traitsRest_written : (traitsRest : Reads n (List Member)).Gives fun ms => ∀ m ∈ ms, WrittenMember m :=
  .after fun _ => .after fun _ => .after fun _ => .pure (List.forall_mem_singleton.2 nofun)

omit hself in
theorem behind_written {test : Token → Bool} {p : Reads n (List Member)}
    (hp : p.Gives fun ms => ∀ m ∈ ms, WrittenMember m) :
    (behind test p).Gives fun ms => ∀ m ∈ ms, WrittenMember m := .bind (.any _) fun _ _ => hp

theorem declaration_written (words : List String) (pos : Position) :
    (declaration self words pos).Gives fun ms => ∀ m ∈ ms, WrittenMember m := by
  refine .look fun ts => .ite (behind_written (constantsRest_written hself _)) (.ite ?_ ?_)
  · exact behind_written (methodRest_written hself _ pos)
  · exact properties_written hself _

theorem member_written : (member self).Gives fun ms => ∀ m ∈ ms, WrittenMember m := by
  refine .look fun ts => .ite (.fail _) (.ite (behind_written traitsRest_written) ?_)
  exact .before fun _ => .before fun _ => declaration_written hself _ _

theorem members_written : (members self).Gives fun ms => ∀ p ∈ Part.members ms, p.AllWritten := by
  refine .after fun _ => .bind (.many (member_written hself)) fun mss hmss => .after fun _ => .pure ?_
  have hms : ∀ m ∈ mss.flatten, WrittenMember m := fun m hm => by
    obtain ⟨ms, hms, hm⟩ := List.mem_flatten.1 hm
    exact hmss ms hms m hm
  generalize mss.flatten = ms at hms
  induction ms with
  | nil => nofun
  | cons m ms ih =>
    obtain ⟨hm, hms⟩ := List.forall_mem_cons.1 hms
    rw [Part.members_cons]
    exact List.forall_mem_append.2 ⟨hm, ih hms⟩

/-! ## Declarations -/

theorem classRest_written (first : Token) : (classRest self first).Gives WrittenStmt := by
  unfold classRest
  extract_lets finish
  have hfinish (modifiers : List Token) : (finish modifiers).Gives WrittenStmt := by
    refine .after fun _ => .after fun _ => .iteBind (.any _) (.any _) fun _ _ => .after fun _ => ?_
    refine .iteBind (.any _) (.any _) fun _ _ => .bind (members_written hself) fun ms hms => .pure ?_
    exact written_stmt (List.forall_mem_singleton.2 (Part.allWritten_iff.2 ⟨rfl, hms⟩))
  exact .ite (.after fun _ => .after fun _ => .after hfinish) (.after hfinish)

theorem interfaceRest_written (pos : Position) : (interfaceRest self pos).Gives WrittenStmt := by
  refine .after fun _ => .after fun _ => .iteBind (.any _) (.any _) fun _ _ => ?_
  refine .bind (members_written hself) fun ms hms => ?_
  split
  · exact .fail _
  · next hnone =>
    have hproperties : ∀ m ∈ ms, m.property? = none := List.findSome?_eq_none_iff.1 hnone
    have hbelow : ∀ p ∈ Part.interfaceMembers ms, p.AllWritten := fun p hp =>
      hms p (Part.interfaceMembers_subset ms hp)
    exact .pure (written_stmt (List.forall_mem_singleton.2 (Part.allWritten_iff.2 ⟨hproperties, hbelow⟩)))

theorem namespaceRest_written (pos : Position) : (namespaceRest self pos).Gives WrittenStmt := by
  refine .after fun name => .after fun _ => .ite ?_ ?_
  · exact .bind (block_written hself) fun body hbody => .pure (written_stmt (List.forall_mem_map.2 hbody))
  · extract_lets finish
    have hfinish (u : Unit) : (finish u).Gives WrittenStmt := by
      refine .after fun _ => .bind (.many hself.stmt) fun body hbody => .pure ?_
      exact written_stmt (List.forall_mem_map.2 hbody)
    exact .ite (.after hfinish) (hfinish ())

omit hself in
theorem importsRest_written (pos : Position) : (importsRest pos : Reads n Stmt).Gives WrittenStmt :=
  .after fun _ => .after fun _ => .after fun _ => .pure (written_stmt nofun)

omit hself in
theorem functionRest_written (pos : Position) : (functionRest self pos).Gives WrittenStmt := by
  -- of the signature and the body nothing is kept
  refine .after fun _ => .after fun name => .after fun _ => .after fun _ => .after fun _ => ?_
  exact .pure (written_stmt nofun)

/-! ## Control flow -/

theorem elseIf_written :
    (elseIf self).Gives fun b => WrittenExpr b.test ∧ ∀ s ∈ b.body, WrittenStmt s := by
  refine .bind (parenthesised_written hself) fun test htest => ?_
  exact .bind (body_written hself) fun body hbody => .pure ⟨htest, hbody⟩

omit hself in
theorem elseIfs_written {bs : List ElseIf}
    (h : ∀ b ∈ bs, WrittenExpr b.test ∧ ∀ s ∈ b.body, WrittenStmt s) :
    ∀ p ∈ Part.elseIfs bs, p.AllWritten := by
  induction bs with
  | nil => nofun
  | cons b bs ih =>
    obtain ⟨⟨htest, hbody⟩, hbs⟩ := List.forall_mem_cons.1 h
    refine List.forall_mem_cons.2 ⟨htest, List.forall_mem_append.2 ⟨?_, ih hbs⟩⟩
    exact List.forall_mem_map.2 hbody

theorem branchRest_written (pos : Position) : (branchRest self pos).Gives WrittenStmt := by
  refine .bind (parenthesised_written hself) fun test htest => .bind (body_written hself) fun body hbody => ?_
  have hloop := elseIf_written hself
  refine .bind (Q := fun bs => ∀ b ∈ bs, WrittenExpr b.test ∧ ∀ s ∈ b.body, WrittenStmt s)
    (.loop nofun fun bs hbs t rest p hp => ?_) fun bs hbs => .after fun _ => ?_
  · split at hp
    · cases hp
      exact .bind hloop fun b hb => .pure (List.forall_mem_cons.2 ⟨hb, hbs⟩)
    · split at hp
      · cases hp
        exact .after fun _ => .bind hloop fun b hb => .pure (List.forall_mem_cons.2 ⟨hb, hbs⟩)
      · cases hp
  · refine .iteBind (Q := fun o => ∀ s ∈ o.getD [], WrittenStmt s) (.map (body_written hself)) (.pure nofun) ?_
    refine fun otherwise hotherwise => .pure (written_stmt (List.forall_mem_cons.2 ⟨htest, ?_⟩))
    refine List.forall_mem_append.2 ⟨List.forall_mem_append.2 ⟨List.forall_mem_map.2 hbody, ?_⟩, ?_⟩
    · exact elseIfs_written (by simpa using hbs)
    · exact List.forall_mem_map.2 hotherwise

theorem whileRest_written (pos : Position) : (whileRest self pos).Gives WrittenStmt := by
  refine .bind (parenthesised_written hself) fun test htest => .bind (body_written hself) fun body hbody => ?_
  exact .pure (written_stmt (List.forall_mem_cons.2 ⟨htest, List.forall_mem_map.2 hbody⟩))

theorem forRest_written (pos : Position) : (forRest self pos).Gives WrittenStmt := by
  refine .after fun _ => .bind (listUntil_gives (hself.expr 0)) fun init hinit => ?_
  refine .bind (listUntil_gives (hself.expr 0)) fun test htest => ?_
  refine .bind (listUntil_gives (hself.expr 0)) fun step hstep => ?_
  refine .bind (body_written hself) fun body hbody => .pure (written_stmt ?_)
  refine List.forall_mem_append.2 ⟨List.forall_mem_append.2 ⟨List.forall_mem_append.2 ⟨?_, ?_⟩, ?_⟩, ?_⟩
  · exact List.forall_mem_map.2 hinit
  · exact List.forall_mem_map.2 htest
  · exact List.forall_mem_map.2 hstep
  · exact List.forall_mem_map.2 hbody

theorem foreachRest_written (pos : Position) : (foreachRest self pos).Gives WrittenStmt := by
  refine .after fun _ => .bind (hself.expr 0).parser fun subject hsubject => ?_
  refine .after fun _ => .after fun byRef => ?_
  refine .bind (hself.expr 0).parser fun first hfirst => .after fun found => ?_
  extract_lets finish keyed
  have hfinish (bound : Option Expr × Expr × Bool)
      (hbound : (∀ e ∈ bound.1.toList, WrittenExpr e) ∧ WrittenExpr bound.2.1) :
      (finish bound).Gives WrittenStmt := by
    refine .after fun _ => .bind (body_written hself) fun body hbody => .pure (written_stmt ?_)
    refine List.forall_mem_cons.2 ⟨hsubject, List.forall_mem_append.2 ⟨List.forall_mem_map.2 hbound.1, ?_⟩⟩
    exact List.forall_mem_cons.2 ⟨hbound.2, List.forall_mem_map.2 hbody⟩
  have hkeyed (u : Unit) : (keyed u).Gives WrittenStmt := by
    refine .after fun _ => .bind (hself.expr 0).parser fun value hvalue => .bind (.pure ?_) hfinish
    exact ⟨List.forall_mem_singleton.2 hfirst, hvalue⟩
  exact .ite (.ite (.after hkeyed) (hkeyed ())) (.bind (.pure ⟨nofun, hfirst⟩) hfinish)

theorem catchRest_written (pos : Position) :
    (catchRest self pos).Gives fun c => (Part.clause c).AllWritten := by
  refine .after fun _ => .after fun types => .after fun _ => .after fun var => .after fun _ => ?_
  refine .bind (block_written hself) fun body hbody => .pure ?_
  exact Part.allWritten_iff.2 ⟨trivial, List.forall_mem_map.2 hbody⟩

theorem tryRest_written (pos : Position) : (tryRest self pos).Gives WrittenStmt := by
  refine .bind (block_written hself) fun body hbody => ?_
  refine .bind (Q := fun cs => ∀ c ∈ cs, (Part.clause c).AllWritten)
    (.loop nofun fun cs hcs t rest p hp => ?_) fun cs hcs => .after fun _ => ?_
  · split at hp
    · cases hp
      exact .bind (catchRest_written hself t.pos) fun c hc => .pure (List.forall_mem_cons.2 ⟨hc, hcs⟩)
    · cases hp
  · refine .iteBind (Q := fun o => ∀ s ∈ o.getD [], WrittenStmt s) (.map (block_written hself)) (.pure nofun) ?_
    intro cleanup hcleanup
    beta_reduce
    extract_lets finish
    have hfinish (u : Unit) : (finish u).Gives WrittenStmt := by
      refine .pure (written_stmt (List.forall_mem_append.2 ⟨List.forall_mem_append.2 ⟨?_, ?_⟩, ?_⟩))
      · exact List.forall_mem_map.2 hbody
      · exact List.forall_mem_map.2 (by simpa using hcs)
      · exact List.forall_mem_map.2 hcleanup
    exact .ite (.after hfinish) (hfinish ())

omit hself in
theorem exitRest_written {s : Stmt} (hs : WrittenStmt s) : (exitRest s : Reads n Stmt).Gives WrittenStmt := by
  refine .after fun ts => ?_
  extract_lets finish level
  have hfinish (u : Unit) : (finish u).Gives WrittenStmt := .after fun _ => .pure hs
  split
  · exact .ite (.after hfinish) (.after fun _ => .after hfinish)
  · exact hfinish ()

/-! ## Simple statements -/

theorem returnRest_written (pos : Position) : (returnRest self pos).Gives WrittenStmt := by
  refine .after fun _ => .iteBind (Q := fun v => ∀ e ∈ v.toList, WrittenExpr e) (.pure nofun) ?_ ?_
  · exact .map ((hself.expr 0).parser.mono fun _ => List.forall_mem_singleton.2)
  · exact fun value hvalue => .after fun _ => .pure (written_stmt (List.forall_mem_map.2 hvalue))

theorem echoRest_written (pos : Position) : (echoRest self pos).Gives WrittenStmt := by
  refine .bind (Consuming.Gives.separated (hself.expr 0)).parser fun es hes => .after fun _ => .pure ?_
  exact written_stmt (List.forall_mem_map.2 hes)

theorem throwRest_written (pos : Position) : (throwRest self pos).Gives WrittenStmt := by
  refine .bind (hself.expr 0).parser fun e he => .after fun _ => .pure ?_
  exact written_stmt (List.forall_mem_singleton.2 he)

omit hself in
theorem declareRest_written (pos : Position) : (declareRest pos : Reads n Stmt).Gives WrittenStmt := by
  refine .after fun _ => .after fun directives => .after fun _ => .after fun _ => ?_
  exact .pure (written_stmt nofun)

/-! ## Statements -/

theorem keywordStmt?_written {t : Token} {word : String} {rest : List Token} {p : Reads n Stmt}
    (hp : keywordStmt? self t word rest = some p) : p.Gives WrittenStmt := by
  unfold keywordStmt? at hp
  split at hp
  · cases hp; exact namespaceRest_written hself _
  · cases hp; exact importsRest_written _
  · cases hp; exact classRest_written hself _
  · cases hp; exact classRest_written hself _
  · cases hp; exact classRest_written hself _
  · split at hp
    · cases hp; exact classRest_written hself _
    · cases hp
  · cases hp; exact interfaceRest_written hself _
  · split at hp
    · cases hp
    · cases hp; exact functionRest_written _
  · cases hp; exact branchRest_written hself _
  · cases hp; exact whileRest_written hself _
  · cases hp; exact forRest_written hself _
  · cases hp; exact foreachRest_written hself _
  · cases hp; exact tryRest_written hself _
  · cases hp; exact exitRest_written (written_stmt nofun)
  · cases hp; exact exitRest_written (written_stmt nofun)
  · cases hp; exact returnRest_written hself _
  · cases hp; exact echoRest_written hself _
  · cases hp; exact throwRest_written hself _
  · cases hp; exact declareRest_written _
  · split at hp
    · cases hp
    · cases hp; exact .fail _
  · split at hp
    · cases hp; exact .fail _
    · cases hp

theorem stmtRest?_written {t : Token} {rest : List Token} {p : Reads n Stmt}
    (hp : stmtRest? self t rest = some p) : p.Gives WrittenStmt := by
  unfold stmtRest? at hp
  split at hp
  · cases hp
    exact .bind (blockRest_written hself) fun body hbody => .pure (written_stmt (List.forall_mem_map.2 hbody))
  · cases hp
    exact .pure (written_stmt nofun)
  · cases hp
    exact .fail _
  · split at hp
    · cases hp
    · exact keywordStmt?_written hself hp
  · cases hp

theorem stmt_written : (stmt self).Gives WrittenStmt := by
  refine .firstOr (fun _ _ _ => stmtRest?_written hself) (.andThen (expr_written hself 0) fun e he => ?_)
  exact .after fun _ => .pure (written_stmt (List.forall_mem_singleton.2 he))

end Rules

/-- Whatever is read at any level is as a text can have it. -/
theorem rules_written (n : Nat) : (rules n).Written := by
  induction n with
  | zero => exact ⟨fun _ => .never, .never, .never, .never, .never⟩
  | succ n ih =>
    exact ⟨expr_written ih, unary_written ih, suffixed_written ih, primary_written ih, stmt_written ih⟩

theorem statements_written {tokens : Tokens} {ss : List Stmt} (h : statements tokens = .ok ss) :
    ∀ s ∈ ss, WrittenStmt s := by
  unfold statements at h
  split at h
  · cases h
  · next reply hreply =>
    cases h
    exact (Parser.Gives.many (rules_written _).stmt).run hreply

end ClassScript.Grammar

namespace ClassScript

/-- What is assigned to stands below the assignment, so it is no made-up variable. -/
theorem Part.AllWritten.untouched {p : Part} (h : p.AllWritten) : ∀ q ∈ p.all, q.Untouched := by
  induction p using Part.induction with
  | step p ih =>
    obtain ⟨hp, hcs⟩ := allWritten_iff.1 h
    refine forall_mem_all_iff.2 ⟨?_, fun c hc => ih c hc (hcs c hc)⟩
    have hown {t : Expr} (ht : (Part.expr t).AllWritten) : t.isMadeUp = false := by
      have hhead := (allWritten_iff.1 ht).1
      cases t <;> first | rfl | exact hhead
    cases p with
    | expr e =>
      cases e with
      | assign => exact ⟨hown (hcs _ (.head _)), hp⟩
      | assignOp | step => exact hown (hcs _ (.head _))
      | _ => trivial
    | closure => exact hp
    | _ => trivial

theorem SourceFile.parse_written {path source : String} {f : SourceFile}
    (h : SourceFile.parse path source = .ok f) : ∀ s ∈ f.stmts, (Part.stmt s).AllWritten := by
  obtain ⟨tokens, -, hok⟩ := bind_eq_ok.1 (mapError_eq_ok.1 h)
  obtain ⟨ss, hss, hok⟩ := bind_eq_ok.1 hok
  cases hok
  exact Grammar.statements_written hss

theorem SourceFile.parse_untouched {path source : String} {f : SourceFile}
    (h : SourceFile.parse path source = .ok f) : ∀ q ∈ f.parts, q.Untouched := by
  intro q hq
  obtain ⟨p, hp, hq⟩ := List.mem_flatMap.1 hq
  obtain ⟨s, hs, rfl⟩ := List.mem_map.1 hp
  exact (parse_written h s hs).untouched q hq

/-! ## Source texts by their characters

A literal is a list of characters before it is a text, so what a text is read as can be computed without decoding
its bytes again. -/

/-- The characters of a text that is put together from two. -/
theorem toList_append_eq {s t : String} {cs ds : List Char} (hs : s.toList = cs) (ht : t.toList = ds) :
    (s ++ t).toList = cs ++ ds := by
  rw [String.toList_append, hs, ht]

namespace SourceFile

/-- Reads a source text that has these characters. -/
def ofChars (path : String) (cs : List Char) : Result SourceFile :=
  Except.mapError (·.inFile path) do
    let tokens ← Token.tokensFrom .start cs
    return ⟨path, ← Grammar.statements tokens⟩

theorem parse_eq_ofChars (path : String) {text : String} {cs : List Char} (h : text.toList = cs) :
    parse path text = ofChars path cs := by
  rw [← h]
  rfl

/-- What can be computed of the characters holds of the file that the text is read as. -/
theorem exists_parse (path text : String) {cs : List Char} (htext : text.toList = cs) {p : SourceFile → Bool}
    (h : (ofChars path cs).toOption.any p = true) : ∃ f, parse path text = .ok f ∧ p f = true := by
  rw [parse_eq_ofChars path htext]
  exact exists_ok_of_any h

end SourceFile

end ClassScript
