import ClassScript.Grammar
import ClassScript.Proofs.Grammar.Gives
import ClassScript.Proofs.Simplify.Zone
/-!
# What a program text can say

No rule of the grammar makes a variable up, marks an assignment, makes a callback of a closure, tells the
script APIs of a class or gives an interface a property (`rules_written`). So a parsed file is untouched
(`SourceFile.parse_untouched`).
-/

namespace ClassScript

/-- The part as a text can have it. -/
def Part.Written : Part → Prop
  | .expr (.variable _ _ synthetic) => synthetic = false
  | .expr (.assign _ _ _ d) => d = none
  | .closure c => c.isIteration = false
  | .cls c => c.scriptApis = none
  | .iface i => ∀ m ∈ i.members, m.property? = none
  | _ => True

/-- The part and all below it are as a text can have them. -/
def Part.AllWritten (p : Part) : Prop := ∀ q ∈ p.all, q.Written

theorem Part.allWritten_iff {p : Part} :
    p.AllWritten ↔ p.Written ∧ ∀ c ∈ p.children, c.AllWritten := forall_mem_all_iff

namespace Grammar

abbrev WrittenExpr (e : Expr) : Prop := (Part.expr e).AllWritten

abbrev WrittenStmt (s : Stmt) : Prop := (Part.stmt s).AllWritten

/-- What a member says is as a text can have it. -/
abbrev WrittenMember (m : Member) : Prop := ∀ p ∈ Part.members [m], p.AllWritten

def isClosure : Expr → Bool
  | .closure .. => true
  | _ => false

theorem written_expr {e : Expr} (hclosure : isClosure e = false) (he : (Part.expr e).Written)
    (h : ∀ c ∈ e.subexprs, WrittenExpr c) : WrittenExpr e := by
  refine Part.allWritten_iff.2 ⟨he, fun c hc => ?_⟩
  rcases Part.mem_ofExpr.1 hc with ⟨x, hx, rfl⟩ | ⟨p, f, rfl, rfl⟩
  · exact h x hx
  · cases hclosure

theorem written_stmt {s : Stmt} (h : ∀ c ∈ Part.ofStmt s, c.AllWritten) : WrittenStmt s :=
  Part.allWritten_iff.2 ⟨trivial, h⟩

/-- The rules give what a text can say. -/
structure Rules.Written {n : Nat} (rules : Rules n) : Prop where
  expr : ∀ least, (rules.expr least).Gives WrittenExpr
  unary : rules.unary.Gives WrittenExpr
  suffixed : rules.suffixed.Gives WrittenExpr
  primary : rules.primary.Gives WrittenExpr
  stmt : rules.stmt.Gives WrittenStmt

section Rules

variable {n : Nat} {self : Rules n} (hself : self.Written)

include hself

/-! ## Parameters and blocks -/

theorem param_written : (param self).Gives fun p => (Part.param p).AllWritten := by
  unfold param
  dsimp only
  refine .before ?_
  rintro ⟨pos, promoted, type, byRef, variadic⟩
  refine .bind (.any _) fun _ _ => .bind (optionally_gives (hself.expr 0)) fun default hdefault => .pure ?_
  exact Part.allWritten_iff.2 ⟨trivial, List.forall_mem_map.2 hdefault⟩

theorem params_written : (params self).Gives fun ps => ∀ p ∈ ps, (Part.param p).AllWritten :=
  .after fun _ => listUntil_gives (param_written hself)

theorem blockRest_written : (blockRest self).Gives fun ss => ∀ s ∈ ss, WrittenStmt s := by
  refine .bind (.many (.look fun ts => .ite (.fail _) hself.stmt)) fun _ hss => ?_
  exact .after fun _ => .pure hss

theorem block_written : (block self).Gives fun ss => ∀ s ∈ ss, WrittenStmt s :=
  .after fun _ => blockRest_written hself

theorem body_written : (body self).Gives fun ss => ∀ s ∈ ss, WrittenStmt s := by
  refine .after fun _ => .after fun _ => .ite (block_written hself) ?_
  exact .bind hself.stmt.parser fun s hs => .pure (List.forall_mem_singleton.2 hs)

theorem parenthesised_written : (parenthesised self).Gives WrittenExpr :=
  .after fun _ => .bind (hself.expr 0).parser fun _ he => .after fun _ => .pure he

/-! ## Arguments, array items and closures -/

theorem arg_written : (arg self).Gives fun a => WrittenExpr a.value := by
  refine .look fun ts => .ite (.fail _) (.before fun unpack => ?_)
  refine .look fun ts => .ite (.fail _) ?_
  exact .map (hself.expr 0)

theorem argsRest_written : (argsRest self).Gives fun as => ∀ a ∈ as, WrittenExpr a.value :=
  listUntil_gives (arg_written hself)

theorem args?_written : (args? self).Gives fun as => ∀ a ∈ as.getD [], WrittenExpr a.value := by
  refine .after fun found => .ite ?_ (.pure nofun)
  exact .bind (argsRest_written hself) fun as has => .pure has

theorem item_written : (item self).Gives fun i => ∀ e ∈ i.key.toList ++ [i.value], WrittenExpr e := by
  refine .look fun ts => .ite (.fail _) (.before fun unpack => .before fun byRef => ?_)
  refine .bind (hself.expr 0) fun e he => ?_
  have halone : ∀ x ∈ [e], WrittenExpr x := List.forall_mem_singleton.2 he
  refine .ite (.pure halone) (.after fun keyed => .ite (.after fun byRef => ?_) (.pure halone))
  exact .bind (hself.expr 0).parser fun v hv => .pure (by simpa using ⟨he, hv⟩)

theorem closureRest_written (pos : Position) (isStatic : Bool) :
    (closureRest self pos isStatic).Gives WrittenExpr := by
  refine .after fun _ => .bind (params_written hself) fun ps hps => ?_
  refine .after fun _ => ?_
  extract_lets finish
  have hfinish (captures : List Capture) : (finish captures).Gives WrittenExpr := by
    refine .after fun _ => .bind (block_written hself) fun body hbody => .pure ?_
    refine Part.allWritten_iff.2 ⟨trivial, List.forall_mem_singleton.2 (Part.allWritten_iff.2 ⟨rfl, ?_⟩)⟩
    exact List.forall_mem_append.2 ⟨List.forall_mem_map.2 hps, List.forall_mem_map.2 hbody⟩
  exact .ite (.after fun _ => .after hfinish) (.after hfinish)

/-! ## Accesses -/

theorem memberName_written : (memberName self).Gives fun name => ∀ e ∈ name.exprs, WrittenExpr e := by
  refine .after fun ts => ?_
  split
  · exact .after fun _ => .pure nofun
  · refine .after fun _ => .pure (List.forall_mem_singleton.2 ?_)
    exact written_expr rfl rfl nofun
  · refine .ite (.after fun _ => .bind (hself.expr 0).parser fun e he => ?_) (failExpected_gives _)
    exact .after fun _ => .pure (List.forall_mem_singleton.2 he)

theorem staticAccess_written {cls : ClassRef} (hcls : ∀ e ∈ cls.exprs, WrittenExpr e) (pos : Position) :
    (staticAccess self cls pos).Gives WrittenExpr := by
  refine .after fun ts => ?_
  split
  · exact .after fun _ => .after fun _ => .pure (written_expr rfl trivial hcls)
  · refine .after fun _ => .bind (args?_written hself) fun as has => ?_
    split
    · refine .pure (written_expr rfl trivial ?_)
      exact List.forall_mem_append.2 ⟨List.forall_mem_append.2 ⟨hcls, nofun⟩, List.forall_mem_map.2 has⟩
    · exact .pure (written_expr rfl trivial hcls)
  · exact failExpected_gives _

theorem suffix?_written {e : Expr} (he : WrittenExpr e) {t : Token} {p : Reads n Expr}
    (hp : suffix? self e t = some p) : p.Gives WrittenExpr := by
  unfold suffix? at hp
  split at hp
  · cases hp
    refine .bind (memberName_written hself) fun name hname => .bind (args?_written hself) fun as has => ?_
    split
    · refine .pure (written_expr rfl trivial (List.forall_mem_cons.2 ⟨he, ?_⟩))
      exact List.forall_mem_append.2 ⟨hname, List.forall_mem_map.2 has⟩
    · exact .pure (written_expr rfl trivial (List.forall_mem_cons.2 ⟨he, hname⟩))
  · cases hp
    refine .after fun _ => .iteBind (Q := fun dim => ∀ d ∈ dim.toList, WrittenExpr d) (.pure nofun) ?_ ?_
    · exact .map ((hself.expr 0).parser.mono fun _ => List.forall_mem_singleton.2)
    · refine fun dim hdim => .after fun _ => .pure (written_expr rfl trivial ?_)
      exact List.forall_mem_cons.2 ⟨he, hdim⟩
  · cases hp
    refine .bind (argsRest_written hself) fun as has => .pure (written_expr rfl trivial ?_)
    exact List.forall_mem_cons.2 ⟨he, List.forall_mem_map.2 has⟩
  · cases hp
    have hcls : ∀ c ∈ (ClassRef.dynamic e).exprs, WrittenExpr c := List.forall_mem_singleton.2 he
    exact staticAccess_written hself hcls _
  · cases hp
    exact .pure (written_expr rfl trivial (List.forall_mem_singleton.2 he))
  · cases hp
    exact .pure (written_expr rfl trivial (List.forall_mem_singleton.2 he))
  · cases hp

theorem suffixes_written {e : Expr} (he : WrittenExpr e) : (suffixes self e).Gives WrittenExpr :=
  .loop he fun _ he _ _ _ hp => suffix?_written hself he hp

/-! ## Primary expressions -/

omit hself in
theorem anonymousClassRest_written (pos : Position) : (anonymousClassRest self pos).Gives WrittenExpr := by
  have hend : Parser.Gives (do
      symbol "\x7b"
      skipBlock
      return Expr.anonymousClass pos : Reads n Expr) WrittenExpr :=
    .after fun _ => .after fun _ => .pure (written_expr rfl trivial nofun)
  have himplements : Parser.Gives (do
      if ← acceptsWord "implements" then discard names.parser
      symbol "\x7b"
      skipBlock
      return Expr.anonymousClass pos : Reads n Expr) WrittenExpr :=
    .after fun _ => .ite (.after fun _ => hend) hend
  exact .after fun _ => .after fun _ => .ite (.after fun _ => himplements) himplements

omit hself in
theorem classRef_written (raw : String) : ∀ e ∈ (classRef raw).exprs, WrittenExpr e := by
  unfold classRef
  split <;> exact nofun

theorem newRest_written (pos : Position) : (newRest self pos).Gives WrittenExpr := by
  refine .after fun _ => .ite (anonymousClassRest_written pos) (.after fun ts => ?_)
  extract_lets finish
  have hfinish (cls : ClassRef) (hcls : ∀ e ∈ cls.exprs, WrittenExpr e) :
      (finish cls).Gives WrittenExpr := by
    refine .bind (args?_written hself) fun as has => .pure (written_expr rfl trivial ?_)
    exact List.forall_mem_append.2 ⟨hcls, List.forall_mem_map.2 has⟩
  split
  · exact .after fun _ => .bind (.pure (classRef_written _)) hfinish
  · refine .after fun _ => .bind (.pure (List.forall_mem_singleton.2 ?_)) hfinish
    exact written_expr rfl rfl nofun
  · refine .ite (.bind (.map ?_) hfinish) (.bind (failExpected_gives _) hfinish)
    exact (parenthesised_written hself).mono fun _ => List.forall_mem_singleton.2

omit hself in
theorem array_written {pos : Position} {is : List ArrayItem}
    (his : ∀ i ∈ is, ∀ e ∈ i.key.toList ++ [i.value], WrittenExpr e) : WrittenExpr (.array pos is) := by
  refine written_expr rfl trivial ?_
  induction is with
  | nil => nofun
  | cons i is ih =>
    obtain ⟨hi, his⟩ := List.forall_mem_cons.1 his
    obtain ⟨hkey, hvalue⟩ := List.forall_mem_append.1 hi
    refine List.forall_mem_append.2 ⟨hkey, List.forall_mem_cons.2 ⟨?_, ih his⟩⟩
    exact List.forall_mem_singleton.1 hvalue

theorem nameExpr_written (t : Token) (raw : String) (rest : List Token) :
    (nameExpr self t raw rest).Gives WrittenExpr := by
  unfold nameExpr
  extract_lets pos plain
  have hplain : plain.Gives WrittenExpr := by
    refine .after fun _ => .ite (staticAccess_written hself (classRef_written raw) pos) ?_
    refine .bind (args?_written hself) fun as has => ?_
    split
    · exact .pure (written_expr rfl trivial (List.forall_mem_map.2 has))
    · exact .pure (written_expr rfl trivial nofun)
  refine .ite hplain ?_
  split
  · exact .pure (written_expr rfl trivial nofun)
  · exact .pure (written_expr rfl trivial nofun)
  · exact .pure (written_expr rfl trivial nofun)
  · exact newRest_written hself pos
  · exact closureRest_written hself pos false
  · exact .fail _
  · refine .ite (.after fun _ => .bind (listUntil_gives (item_written hself)) fun is his => ?_) hplain
    exact .pure (array_written his)
  · refine .ite (.after fun _ => .bind (argsRest_written hself) fun as has => .pure ?_) hplain
    exact written_expr rfl trivial (List.forall_mem_map.2 has)
  · exact .ite (.after fun _ => .after fun _ => closureRest_written hself _ true) hplain
  · exact .ite (.fail _) hplain

theorem primary_written : (primary self).Gives WrittenExpr := by
  refine .first fun t rest => ?_
  split
  · exact .pure (written_expr rfl rfl nofun)
  · exact .pure (written_expr rfl trivial nofun)
  · exact .pure (written_expr rfl trivial nofun)
  · exact .pure (written_expr rfl trivial nofun)
  · exact .fail _
  · exact nameExpr_written hself t _ rest
  · exact .bind (hself.expr 0).parser fun _ he => .after fun _ => .pure he
  · exact .bind (listUntil_gives (item_written hself)) fun is his => .pure (array_written his)
  · refine .after fun _ => .ite (.bind (hself.expr 0).parser fun _ he => .after fun _ => .pure ?_)
      (.bind hself.primary.parser fun _ he => .pure ?_)
    all_goals exact written_expr rfl trivial (List.forall_mem_singleton.2 he)
  · exact .fail _

theorem suffixed_written : (suffixed self).Gives WrittenExpr :=
  .andThen (primary_written hself) fun _ => suffixes_written hself

/-! ## Operators -/

theorem before?_written {t : Token} {rest : List Token} {p : Reads n Expr}
    (hp : before? self t rest = some p) : p.Gives WrittenExpr := by
  have one {q : Takes n Expr} (hq : q.Gives WrittenExpr) {f : Expr → Expr}
      (hf : ∀ e, WrittenExpr e → WrittenExpr (f e)) :
      Parser.Gives (do return f (← q.parser) : Reads n Expr) WrittenExpr :=
    .bind hq.parser fun e he => .pure (hf e he)
  unfold before? at hp
  split at hp
  · cases hp
    exact one (hself.expr _) fun e he => written_expr rfl trivial (List.forall_mem_singleton.2 he)
  · split at hp
    · cases hp
      exact .fail _
    · cases hp
      exact .fail _
    · cases hp
      exact one hself.suffixed fun e he => written_expr rfl trivial (List.forall_mem_singleton.2 he)
    · cases hp
      exact one hself.suffixed fun e he => written_expr rfl trivial (List.forall_mem_singleton.2 he)
    · split at hp
      · split at hp
        · split at hp
          · cases hp
            refine .after fun _ => .after fun _ => one (hself.expr _) fun e he => ?_
            exact written_expr rfl trivial (List.forall_mem_singleton.2 he)
          · cases hp
        · cases hp
      · cases hp
    · cases hp

theorem unary_written : (unary self).Gives WrittenExpr := by
  refine .firstOr (fun _ _ _ => before?_written hself) (.look fun ts => ?_)
  refine .andThen (suffixed_written hself) fun base hbase => .after fun _ => .ite ?_ (.pure hbase)
  refine .bind hself.unary.parser fun e he => .pure (written_expr rfl trivial ?_)
  exact List.forall_mem_cons.2 ⟨hbase, List.forall_mem_singleton.2 he⟩

omit hself in
theorem testedClass_written : (testedClass : Reads n ClassRef).Gives fun c => ∀ e ∈ c.exprs, WrittenExpr e := by
  refine .after fun ts => ?_
  split
  · exact .after fun _ => .pure (classRef_written _)
  · exact .after fun _ => .pure (List.forall_mem_singleton.2 (written_expr rfl rfl nofun))
  · exact failExpected_gives _

theorem operator?_written {least : Nat} {left : Expr} (hleft : WrittenExpr left) {t : Token}
    {p : Reads n Expr} (hp : operator? self least left t = some p) : p.Gives WrittenExpr := by
  have pair {e : Expr} (he : WrittenExpr e) : ∀ c ∈ [left, e], WrittenExpr c :=
    List.forall_mem_cons.2 ⟨hleft, List.forall_mem_singleton.2 he⟩
  unfold operator? at hp
  split at hp
  · split at hp
    · cases hp
      split
      · refine .after fun _ => .bind (hself.expr _).parser fun e he => .pure ?_
        exact written_expr rfl rfl (pair he)
      · exact .bind (hself.expr _).parser fun e he => .pure (written_expr rfl trivial (pair he))
    · split at hp
      all_goals
        cases hp
        exact .fail _
  · split at hp
    · cases hp
      exact .fail _
    · split at hp
      · split at hp
        · cases hp
        · cases hp
          refine .after fun _ => ?_
          extract_lets finish
          have hfinish (whenTrue : Option Expr) (h : ∀ e ∈ whenTrue.toList, WrittenExpr e) :
              (finish whenTrue).Gives WrittenExpr := by
            refine .bind (hself.expr _).parser fun e he => .pure (written_expr rfl trivial ?_)
            refine List.forall_mem_cons.2 ⟨hleft, List.forall_mem_append.2 ⟨h, ?_⟩⟩
            exact List.forall_mem_singleton.2 he
          refine .ite (.bind (.pure nofun) hfinish) (.bind (hself.expr _).parser fun e he => .after fun _ => ?_)
          exact .bind (.pure (List.forall_mem_singleton.2 he)) hfinish
      · split at hp
        · split at hp
          · cases hp
          · cases hp
            refine .bind testedClass_written fun c hc => .pure (written_expr rfl trivial ?_)
            exact List.forall_mem_cons.2 ⟨hleft, hc⟩
        · split at hp
          · cases hp
          · split at hp
            · cases hp
            · cases hp
              exact .bind (hself.expr _).parser fun e he => .pure (written_expr rfl trivial (pair he))

theorem expr_written (least : Nat) : (expr self least).Gives WrittenExpr :=
  .andThen (unary_written hself) fun _ he => .loop he fun _ he _ _ _ hp => operator?_written hself he hp

end Rules

end Grammar

end ClassScript
