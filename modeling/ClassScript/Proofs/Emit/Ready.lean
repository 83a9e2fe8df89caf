import ClassScript.Proofs.Emit.Safe
import ClassScript.Proofs.Tree.Throughout
import Mathlib.Tactic.MkIffOfInductiveProp
/-!
# What can be emitted

A part is ready if emission finds all that the passes before it have to find out: nothing is left to
simplify, references are names, assignments say whether they declare, and members of `$this` are in
a bucket. Whatever is ready throughout is emitted without an internal failure (`emitExpr_safe`,
`emitFunction_safe`, `emitMethod_safe`). Outside of functions there is no place for a declaration, so there no
assignment may declare a variable.
-/

namespace ClassScript

/-! ## Ready parts -/

/-- Nothing is left that has no emitted form of its own, and classes are referred to by name. -/
def Part.Simple : Part → Prop
  | .expr (.array ..) | .expr (.index ..) | .expr (.assignOp ..) | .expr (.step ..)
  | .expr (.staticCall ..) | .expr (.staticProperty ..) => False
  | .expr (.classConst _ c _) | .expr (.new _ c _) | .expr (.instanceOf _ _ c) => ∃ n, c = .named n
  | .stmt (.foreach ..) => False
  | _ => True

/-- An assignment to a variable says whether it declares it. -/
def Part.Marked : Part → Prop
  | .expr (.assign _ (.variable _ n false) _ d) => n ≠ "this" → d.isSome = true
  | _ => True

/-- An assignment declares no variable. -/
def Part.DeclaresNone : Part → Prop
  | .expr (.assign _ (.variable _ n false) _ d) => n ≠ "this" → d ≠ some true
  | _ => True

/-- A member of `$this` is in a bucket. -/
def Part.Bucketed : Part → Prop
  | .expr (.property _ o (.ident _) b) | .expr (.methodCall _ o (.ident _) _ b) =>
    o.isThis = true → b.isSome = true
  | _ => True

/-- A part is ready to be emitted in a function or outside of all. -/
@[mk_iff]
structure Part.Ready (inside : Bool) (p : Part) : Prop where
  simple : p.Simple
  marked : p.Marked
  bucketed : p.Bucketed
  declares : inside = false → p.DeclaresNone

theorem Part.simple_bare (p : Part) : p.bare.Simple ↔ p.Simple := by
  cases p with
  | expr e =>
    cases e with
    | classConst _ c _ | new _ c _ | instanceOf _ _ c =>
      cases c <;> simp [bare, Expr.bare, ClassRef.bare, Simple]
    | _ => rfl
  | stmt s => cases s <;> rfl
  | _ => rfl

theorem Part.marked_bare (p : Part) : p.bare.Marked ↔ p.Marked := by
  cases p with
  | expr e =>
    cases e with
    | assign p t v d =>
      cases t with
      | «variable» _ _ s => cases s <;> rfl
      | _ => rfl
    | _ => rfl
  | _ => rfl

theorem Part.declaresNone_bare (p : Part) : p.bare.DeclaresNone ↔ p.DeclaresNone := by
  cases p with
  | expr e =>
    cases e with
    | assign p t v d =>
      cases t with
      | «variable» _ _ s => cases s <;> rfl
      | _ => rfl
    | _ => rfl
  | _ => rfl

theorem Expr.isThis_stub (e : Expr) : e.stub.isThis = e.isThis := by cases e <;> rfl

theorem Part.bucketed_bare (p : Part) : p.bare.Bucketed ↔ p.Bucketed := by
  cases p with
  | expr e =>
    cases e with
    | property _ o n _ =>
      cases n <;> simp only [bare, Expr.bare, MemberName.bare, Bucketed, Expr.isThis_stub]
    | methodCall _ o n _ _ =>
      cases n <;> simp only [bare, Expr.bare, MemberName.bare, Bucketed, Expr.isThis_stub]
    | _ => rfl
  | _ => rfl

namespace Emit

/-- Where a part is emitted: in a function, outside of all, or apart with the declaration around it. -/
inductive Site where
  | inside
  | outside
  | apart
deriving DecidableEq

def Site.enter : Site → Part → Site
  | _, .cls _ | _, .iface _ | _, .method _ => .apart
  | .outside, .closure _ => .inside
  | l, _ => l

def Site.of (inside : Bool) : Site := if inside then .inside else .outside

/-- A closure is a function, wherever it stands. -/
theorem Site.enter_closure (inside : Bool) (c : Closure) : (Site.of inside).enter (.closure c) = .of true := by
  cases inside <;> rfl

theorem Site.of_ne_apart (inside : Bool) : Site.of inside ≠ .apart := by cases inside <;> simp [Site.of]

/-- All that is emitted with a part is ready. -/
def readyShape : Shape Site where
  enter := Site.enter
  holds l p := ∀ inside, l = .of inside → p.Ready inside
  enter_expr l _ := by cases l <;> rfl
  enter_stmt l _ := by cases l <;> rfl
  enter_param l _ := by cases l <;> rfl
  enter_bare l p := by cases l <;> cases p <;> rfl
  holds_bare _ p := by
    simp only [Part.ready_iff, p.simple_bare, p.marked_bare, p.bucketed_bare, p.declaresNone_bare]

open Script

/-! ## Emission of ready parts -/

variable {inside : Bool}

theorem safe_declared {p : Position} {t v : Expr} {d : Option Bool}
    (h : (Part.expr (.assign p t v d)).Marked) : Safe inside (declared? t d) := by
  cases t with
  | «variable» q n s =>
    cases s with
    | true => exact .pure _
    | false =>
      by_cases hn : n = "this"
      · subst hn
        exact .pure _
      · obtain ⟨d, rfl⟩ := Option.isSome_iff_exists.1 (h hn)
        exact .ite (.pure _) (.pure _)
  | _ => exact .pure _

theorem safe_store {t : Expr} {emitted : Emission Node} (h : Safe inside emitted) (value : Node) :
    Safe inside (store t emitted value) := by
  unfold store
  split
  · exact h.bind fun target => .built (clean_assign target value)
  · exact .failAt (by nofun) _

theorem safe_thisMember {o : Expr} {n : MemberName} {v : Option Visibility} {p : Position}
    {act : Emission Node} (hv : ∀ m, n = .ident m → o.isThis = true → v.isSome = true)
    (h : thisMember? o n v p = some act) : Safe inside act := by
  unfold thisMember? at h
  split at h
  · next hthis =>
    cases h
    cases n with
    | ident m =>
      obtain ⟨v, rfl⟩ := Option.isSome_iff_exists.1 (hv m rfl hthis)
      refine (Safe.pure v).bind fun v => ?_
      exact (Safe.built (clean_ident (bucket v))).bind fun object => .built (clean_member m object)
    | dynamic e => exact .failAt (by nofun) p
  · cases h

/-- An assignment that declares no variable stores its value. -/
theorem declared?_eq_pure {p : Position} {t v : Expr} {d : Option Bool}
    (h : (Part.expr (.assign p t v d)).Ready false) : declared? t d = pure none := by
  cases t with
  | «variable» q n s =>
    cases s with
    | true => rfl
    | false =>
      by_cases hn : n = "this"
      · subst hn
        rfl
      · obtain ⟨d, rfl⟩ := Option.isSome_iff_exists.1 (h.marked hn)
        have hd : d = false := Bool.eq_false_iff.2 fun hd => h.declares rfl hn (congrArg some hd)
        subst hd
        exact if_neg (by simpa using hn)
  | _ => rfl

theorem safe_assigned {p : Position} {t v : Expr} {d : Option Bool} {rest : Option String → Emission Node}
    (h : (Part.expr (.assign p t v d)).Ready inside) (hnone : Safe inside (rest none))
    (hsome : inside = true → ∀ n, Safe inside (rest (some n))) : Safe inside (declared? t d >>= rest) := by
  cases inside with
  | true =>
    refine (safe_declared h.marked).bind fun n => ?_
    cases n with
    | none => exact hnone
    | some n => exact hsome rfl n
  | false =>
    rw [declared?_eq_pure h]
    exact hnone

/-- What is reached and ready. -/
abbrev Reached (inside : Bool) (p : Part) : Prop := Throughout readyShape (.of inside) p

theorem Reached.expr {e : Expr} (h : Reached inside (.expr e)) :
    (Part.expr e).Ready inside ∧ ∀ c ∈ (Part.expr e).children, Reached inside c :=
  (throughout_expr.1 h).imp_left (· _ rfl)

theorem Reached.stmt {s : Stmt} (h : Reached inside (.stmt s)) :
    (Part.stmt s).Ready inside ∧ ∀ c ∈ (Part.stmt s).children, Reached inside c :=
  (throughout_stmt.1 h).imp_left (· _ rfl)

theorem Reached.below {inside' : Bool} {p : Part} (h : Reached inside p)
    (hp : (Site.of inside).enter p = .of inside') : ∀ c ∈ p.children, Reached inside' c := by
  intro c hc
  have hbelow : Throughout readyShape ((Site.of inside).enter p) c := h.child hc
  rwa [hp] at hbelow

mutual

variable (ctx : Context)

theorem emitExpr_safe {inside : Bool} : (e : Expr) → Reached inside (.expr e) → Safe inside (emitExpr ctx e)
  | .variable p n s, _ => .located (.built (clean_variableNode n s)) p
  | .int p _, _ => .located (.pure _) p
  | .float p _, _ => .located (.pure _) p
  | .string p _, _ => .located (.pure _) p
  | .bool p _, _ => .located (.pure _) p
  | .null p, _ => .located (.pure _) p
  | .const p n, _ => .located (safe_constantValue n) p
  | .anonymousClass p, _ => .located (.fail (by nofun)) p
  | .dynamicVariable p _, _ => .located (.fail (by nofun)) p
  | .array .., h => h.expr.1.simple.elim
  | .index .., h => h.expr.1.simple.elim
  | .assignOp .., h => h.expr.1.simple.elim
  | .step .., h => h.expr.1.simple.elim
  | .staticCall .., h => h.expr.1.simple.elim
  | .staticProperty .., h => h.expr.1.simple.elim
  | .property p o n v, h => by
    obtain ⟨hready, hcs⟩ := h.expr
    have ho := emitExpr_safe o (hcs _ (.head _))
    have hmember := fun node => emitMember_safe node n (List.forall_mem_cons.1 hcs).2
    rw [emitExpr_property]
    refine Safe.located ?_ p
    split
    · next node hnode => exact safe_thisMember (by rintro m rfl; exact hready.bucketed) hnode
    · exact ho.bind hmember
  | .methodCall p o n as v, h => by
    obtain ⟨hready, hcs⟩ := h.expr
    obtain ⟨hn, has⟩ := List.forall_mem_append.1 (List.forall_mem_cons.1 hcs).2
    have ho := emitExpr_safe o (hcs _ (.head _))
    have hmember := fun node => emitMember_safe node n hn
    have hcall (callee : Node) : Safe inside (do call callee (← emitArgs ctx as) : Emission Node) :=
      (emitArgs_safe as has).bind fun args => .built (clean_call callee args)
    refine Safe.located ?_ p
    show Safe inside (match thisMember? o n v p with
      | some node => do
        let callee ← node
        call callee (← emitArgs ctx as)
      | none => do
        let callee ← emitMember ctx (← emitExpr ctx o) n
        call callee (← emitArgs ctx as))
    split
    · next node hnode =>
      exact (safe_thisMember (by rintro m rfl; exact hready.bucketed) hnode).bind hcall
    · exact ho.bind fun object => (hmember object).bind hcall
  | .classConst p c n, h => by
    obtain ⟨m, rfl⟩ := h.expr.1.simple
    exact .located (safe_classConstant ctx m n) p
  | .call p (.named n) as, h => by
    have hargs := emitArgs_safe as h.expr.2
    exact .located (hargs.bind fun args => safe_functionCall n args) p
  | .call p (.dynamic _) _, _ => .located (.fail (by nofun)) p
  | .new p c as, h => by
    obtain ⟨⟨⟨n, rfl⟩, -, -⟩, hcs⟩ := h.expr
    have hargs := emitArgs_safe as hcs
    refine .located ((Safe.pure n).bind fun n => ?_) p
    exact hargs.bind fun args => safe_instantiation ctx n args
  | .assign p t v d, h => by
    obtain ⟨hready, hcs⟩ := h.expr
    have ht := emitExpr_safe t (hcs _ (.head _))
    have hv := emitExpr_safe v (hcs _ (.tail _ (.head _)))
    refine .located (hv.bind fun v => safe_assigned hready (safe_store ht v) fun hinside n => ?_) p
    subst hinside
    refine (safe_hoist n).bind fun _ => ?_
    exact (Safe.built (clean_ident n)).bind fun target => .built (clean_assign target v)
  | .binary p op l r, h => by
    obtain ⟨-, hcs⟩ := h.expr
    have hl := emitExpr_safe l (hcs _ (.head _))
    have hr := emitExpr_safe r (hcs _ (.tail _ (.head _)))
    refine .located (hl.bind fun l => ?_) p
    exact hr.bind fun r => .built (clean_binaryNode op l r)
  | .unary p op e, h => by
    have he := emitExpr_safe e (h.expr.2 _ (.head _))
    exact .located (he.bind fun n => .built (clean_unary n _)) p
  | .ternary p c (some t) o, h => by
    obtain ⟨-, hcs⟩ := h.expr
    have hc := emitExpr_safe c (hcs _ (.head _))
    have ht := emitExpr_safe t (hcs _ (.tail _ (.head _)))
    have ho := emitExpr_safe o (hcs _ (.tail _ (.tail _ (.head _))))
    refine .located (hc.bind fun c => ho.bind fun o => ?_) p
    exact ht.bind fun t => .built (clean_ternary t o c)
  | .ternary p c none o, h => by
    obtain ⟨-, hcs⟩ := h.expr
    have hc := emitExpr_safe c (hcs _ (.head _))
    have ho := emitExpr_safe o (hcs _ (.tail _ (.head _)))
    refine .located (hc.bind fun c => ?_) p
    exact ho.bind fun o => .built (clean_chain [c, o] _)
  | .instanceOf p v c, h => by
    obtain ⟨⟨⟨n, rfl⟩, -, -⟩, hcs⟩ := h.expr
    have hv := emitExpr_safe v (hcs _ (.head _))
    refine .located ((Safe.pure n).bind fun n => ?_) p
    exact hv.bind fun v => .built (clean_instanceCheck v n)
  | .cast p t e, h => by
    have he := emitExpr_safe e (h.expr.2 _ (.head _))
    exact .located (he.bind fun n => .built (Builtin.clean_convert t n)) p
  | .isset p es, h => by
    have hes := emitExprs_safe es h.expr.2
    have hcheck (n : Node) : Safe inside (do call (← ident "__isset") [n] : Emission Node) :=
      (Safe.built (clean_ident _)).bind fun check => .built (clean_call check [n])
    refine .located (hes.bind fun ns => ?_) p
    exact (Safe.mapM fun n _ => hcheck n).bind fun checks => .built (clean_chain checks _)
  | .closure p c, h => .located (emitClosure_safe c (h.expr.2 _ (.head _))) p

theorem emitMember_safe {inside : Bool} (object : Node) : (n : MemberName) →
    (∀ c ∈ Part.ofMemberName n, Reached inside c) → Safe inside (emitMember ctx object n)
  | .ident n, _ => .built (clean_member n object)
  | .dynamic e, h => by
    have he := emitExpr_safe e (h _ (.head _))
    exact he.bind fun key => .built (clean_propertyOf object [key])

theorem emitExprs_safe {inside : Bool} : (es : List Expr) → (∀ c ∈ Part.exprs es, Reached inside c) →
    Safe inside (emitExprs ctx es)
  | [], _ => .pure []
  | e :: rest, h => by
    have he := emitExpr_safe e (h _ (.head _))
    have hrest := emitExprs_safe rest fun c hc => h c (.tail _ hc)
    refine he.bind fun n => ?_
    exact hrest.bind fun ns => .pure (n :: ns)

theorem emitArgs_safe {inside : Bool} : (as : List Arg) → (∀ c ∈ Part.ofArgs as, Reached inside c) →
    Safe inside (emitArgs ctx as)
  | [], _ => .pure []
  | ⟨v, _⟩ :: rest, h => by
    have hv := emitExpr_safe v (h _ (.head _))
    have hrest := emitArgs_safe rest fun c hc => h c (.tail _ hc)
    refine hv.bind fun n => ?_
    exact hrest.bind fun ns => .pure (n :: ns)

theorem emitClosure_safe {inside : Bool} : (c : Closure) → Reached inside (.closure c) →
    Safe inside (emitClosure ctx c)
  | ⟨ps, _, b, _, _, _⟩, h => by
    obtain ⟨hps, hb⟩ := List.forall_mem_append.1 (h.below (Site.enter_closure inside _))
    refine safe_functionOf ?_ false
    refine (emitParams_safe 0 ps hps).bind fun params => ?_
    exact (emitStmts_safe b hb).bind fun stmts => .pure (params.1, params.2 ++ stmts)

theorem emitParams_safe {inside : Bool} (index : Nat) : (ps : List Param) →
    (∀ c ∈ ps.map Part.param, Reached inside c) → Safe inside (emitParams ctx index ps)
  | [], _ => .pure ([], [])
  | ⟨n, _, _, _, true, _, _⟩ :: rest, h => by
    have hrest := emitParams_safe (index + 1) rest (List.forall_mem_cons.1 h).2
    refine (Safe.built (clean_restArguments index)).bind fun given => ?_
    refine (Safe.built (clean_declare (mangle n) (some given))).bind fun stmt => ?_
    exact hrest.bind fun params => .pure (params.1, stmt :: params.2)
  | ⟨n, _, d, _, false, _, _⟩ :: rest, h => by
    have hd := emitDefault_safe (mangle n) d ((h _ (.head _)).below rfl)
    have hrest := emitParams_safe (index + 1) rest (List.forall_mem_cons.1 h).2
    refine (Safe.built (clean_ident (mangle n))).bind fun param => ?_
    refine hd.bind fun completed => ?_
    exact hrest.bind fun params => .pure (param :: params.1, completed ++ params.2)

theorem emitDefault_safe {inside : Bool} (name : String) : (d : Option Expr) →
    (∀ c ∈ Part.exprs d.toList, Reached inside c) → Safe inside (emitDefault ctx name d)
  | none, _ => .pure []
  | some e, h => by
    have he := emitExpr_safe e (h _ (.head _))
    refine he.bind fun value => ?_
    exact (Safe.built (clean_defaultStatement name value)).bind fun stmt => .pure [stmt]

theorem emitStmts_safe {inside : Bool} : (ss : List Stmt) → (∀ c ∈ Part.stmts ss, Reached inside c) →
    Safe inside (emitStmts ctx ss)
  | [], _ => .pure []
  | s :: rest, h => by
    have hs := emitStmt_safe s (h _ (.head _))
    have hrest := emitStmts_safe rest fun c hc => h c (.tail _ hc)
    refine hs.bind fun n => ?_
    exact hrest.bind fun ns => .pure (n :: ns)

theorem emitOptional_safe {inside : Bool} : (o : Option (List Stmt)) →
    (∀ c ∈ Part.stmts (o.getD []), Reached inside c) → ∀ ss, o = some ss → Safe inside (emitStmts ctx ss)
  | none, _ => nofun
  | some ss, h => by
    rintro _ ⟨⟩
    exact emitStmts_safe ss h

theorem emitStmt_safe {inside : Bool} : (s : Stmt) → Reached inside (.stmt s) → Safe inside (emitStmt ctx s)
  | .expression e, h => by
    have he := emitExpr_safe e (h.stmt.2 _ (.head _))
    cases e with
    | assign p t v d =>
      obtain ⟨hready, hcs⟩ := (h.stmt.2 _ (.head _)).expr
      have ht := emitExpr_safe t (hcs _ (.head _))
      have hv := emitExpr_safe v (hcs _ (.tail _ (.head _)))
      refine .located ((safe_declared hready.marked).bind fun n => ?_) p
      cases n with
      | some n => exact hv.bind fun v => .built (clean_declare n (some v))
      | none =>
        refine hv.bind fun v => ?_
        exact (safe_store ht v).bind fun assigned => .built (clean_statement assigned)
    | _ => exact .located (he.bind fun n => .built (clean_statement n)) _
  | .echo p es, h => by
    have hes := emitExprs_safe es h.stmt.2
    refine .located ((Safe.built (clean_ident "__echo")).bind fun echo => ?_) p
    refine hes.bind fun args => ?_
    exact (Safe.built (clean_call echo args)).bind fun call => .built (clean_statement call)
  | .ret p (some e), h => by
    have he := emitExpr_safe e (h.stmt.2 _ (.head _))
    exact .located (he.bind fun n => .built (clean_ret (some n))) p
  | .ret p none, _ => by
    refine .located (Safe.get.bind fun frame => .ite ?_ (.built (clean_ret none))) p
    exact (Safe.built (clean_ident publicBucket)).bind fun object => .built (clean_ret (some object))
  | .branch p c t ei o, h => by
    obtain ⟨hc, hrest⟩ := List.forall_mem_cons.1 h.stmt.2
    obtain ⟨hbodies, ho⟩ := List.forall_mem_append.1 hrest
    obtain ⟨ht, hei⟩ := List.forall_mem_append.1 hbodies
    have hbody := emitOptional_safe o ho
    have hend (elseIfs c t ending) : Safe inside (do
        branch c t (← branches elseIfs ending) : Emission Node) :=
      (Safe.built (clean_branches elseIfs ending)).bind fun chain => .built (clean_branch c t chain)
    rw [emitStmt_branch]
    refine .located ((emitExpr_safe c hc).bind fun c => ?_) p
    refine (emitStmts_safe t ht).bind fun t => ?_
    refine (emitElseIfs_safe ei hei).bind fun ei => ?_
    cases o with
    | none => exact (Safe.pure none).bind (hend ei c t)
    | some b =>
      refine (hbody b rfl).bind fun stmts => ?_
      refine (Safe.built (clean_block stmts)).bind fun body => ?_
      exact (Safe.pure (some body)).bind (hend ei c t)
  | .whileLoop p c b, h => by
    obtain ⟨hc, hb⟩ := List.forall_mem_cons.1 h.stmt.2
    refine .located ((emitExpr_safe c hc).bind fun c => ?_) p
    exact (emitStmts_safe b hb).bind fun b => .built (clean_whileLoop c b)
  | .forLoop p i c s b, h => by
    obtain ⟨hheader, hb⟩ := List.forall_mem_append.1 h.stmt.2
    obtain ⟨hic, hs⟩ := List.forall_mem_append.1 hheader
    obtain ⟨hi, hc⟩ := List.forall_mem_append.1 hic
    have hrest (_ : Unit) : Safe inside (do
        let i ← emitExprs ctx i
        let c ← emitExprs ctx c
        let s ← emitExprs ctx s
        forLoop (← sequence i) c.head? (← sequence s) (← emitStmts ctx b) : Emission Node) := by
      refine (emitExprs_safe i hi).bind fun i => ?_
      refine (emitExprs_safe c hc).bind fun c => ?_
      refine (emitExprs_safe s hs).bind fun s => ?_
      refine (Safe.built (clean_sequence i)).bind fun init => ?_
      refine (Safe.built (clean_sequence s)).bind fun step => ?_
      exact (emitStmts_safe b hb).bind fun b => .built (clean_forLoop b init c.head? step)
    exact .located (.ite (.bind (.fail (by nofun)) hrest) (hrest ())) p
  | .breakLoop p, _ => .located (.pure _) p
  | .continueLoop p, _ => .located (.pure _) p
  | .throwValue p e, h => by
    have he := emitExpr_safe e (h.stmt.2 _ (.head _))
    exact .located (he.bind fun n => .built (clean_throwValue n)) p
  | .tryCatch p b cs f, h => by
    obtain ⟨hbodies, hf⟩ := List.forall_mem_append.1 h.stmt.2
    obtain ⟨hb, hcs⟩ := List.forall_mem_append.1 hbodies
    have hcleanup := emitOptional_safe f hf
    have hend (b handler) : Safe inside (match f with
        | some ss => do
          let cleanup ← pure (some (← emitStmts ctx ss))
          tryCatch b handler cleanup
        | none => do
          let cleanup ← pure none
          tryCatch b handler cleanup : Emission Node) := by
      cases f with
      | none => exact (Safe.pure none).bind fun cleanup => .built (clean_tryCatch b handler cleanup)
      | some ss =>
        refine (hcleanup ss rfl).bind fun stmts => ?_
        exact (Safe.pure (some stmts)).bind fun cleanup => .built (clean_tryCatch b handler cleanup)
    rw [emitStmt_tryCatch]
    refine .located ((emitStmts_safe b hb).bind fun b => ?_) p
    refine (emitCatches_safe cs hcs).bind fun clauses => ?_
    refine .ite ((Safe.pure none).bind (hend b)) ?_
    refine (Safe.built (clean_handlerOf clauses)).bind fun handler => ?_
    exact (Safe.pure (some (exceptionName, handler))).bind (hend b)
  | .block p b, h => by
    have hb := emitStmts_safe b h.stmt.2
    exact .located (hb.bind fun ns => .built (clean_block ns)) p
  | .nop p, _ => .located (.pure _) p
  | .foreach .., h => h.stmt.1.simple.elim
  | .nsBlock p .., _ => .located (.fail (by nofun)) p
  | .imports p .., _ => .located (.fail (by nofun)) p
  | .classDecl c, _ => .located (.fail (by nofun)) c.pos
  | .interfaceDecl i, _ => .located (.fail (by nofun)) i.pos
  | .functionDecl p .., _ => .located (.fail (by nofun)) p

theorem emitElseIfs_safe {inside : Bool} : (bs : List ElseIf) → (∀ c ∈ Part.elseIfs bs, Reached inside c) →
    Safe inside (emitElseIfs ctx bs)
  | [], _ => .pure []
  | ⟨c, b⟩ :: rest, h => by
    obtain ⟨hb, hrest⟩ := List.forall_mem_append.1 (List.forall_mem_cons.1 h).2
    refine (emitExpr_safe c (h _ (.head _))).bind fun c => ?_
    refine (emitStmts_safe b hb).bind fun b => ?_
    exact (emitElseIfs_safe rest hrest).bind fun ns => .pure ((c, b) :: ns)

theorem emitCatches_safe {inside : Bool} : (cs : List Catch) → (∀ c ∈ cs.map Part.clause, Reached inside c) →
    Safe inside (emitCatches ctx cs)
  | [], _ => .pure []
  | ⟨ts, v, b, p⟩ :: rest, h => by
    have hb := emitStmts_safe b ((h _ (.head _)).below rfl)
    have hrest := emitCatches_safe rest (List.forall_mem_cons.1 h).2
    refine (Safe.built (clean_catchTests ts)).bind fun tests => ?_
    refine (Safe.built (clean_catchBinding v)).bind fun binding => ?_
    refine hb.bind fun b => ?_
    refine (Safe.located (.built (clean_chain tests _)) p).bind fun test => ?_
    exact hrest.bind fun ns => .pure ((test, binding ++ b) :: ns)

end

/-! ## Methods -/

variable (ctx : Context)

theorem emitFunction_safe {m : Method} {body : List Stmt}
    (hparams : ∀ c ∈ m.params.map Part.param, Reached true c) (hbody : ∀ c ∈ Part.stmts body, Reached true c) :
    Safe inside (emitFunction ctx m body) := by
  refine .located (safe_functionOf ?_ m.isConstructor) m.pos
  refine (emitParams_safe ctx 0 m.params hparams).bind fun params => ?_
  exact (emitStmts_safe ctx body hbody).bind fun stmts => .pure (params.1, params.2 ++ stmts)

theorem clean_memberStatement (v : Visibility) (name : String) (value : Node) :
    Clean (memberStatement v name value) := by
  refine (clean_ident (bucket v)).bind fun object => ?_
  refine (clean_member name object).bind fun slot => ?_
  exact (clean_assign slot value).bind fun assigned => clean_statement assigned

theorem emitMethod_safe (cls : String) {m : Method} (hresolved : m.resolved.isSome = true)
    (h : ∀ c ∈ (Part.method m).children, Reached true c) : Safe inside (emitMethod ctx cls m) := by
  obtain ⟨v, hv⟩ := Option.isSome_iff_exists.1 hresolved
  obtain ⟨hparams, hbody⟩ := List.forall_mem_append.1 h
  obtain heq | heq | ⟨body, hsome, heq⟩ := emitMethod_cases ctx cls m <;> rw [heq]
  · exact .failAt (by rintro ⟨⟩) m.pos
  · exact .failAt (by rintro ⟨⟩) m.pos
  · rw [hsome] at hbody
    rw [hv]
    refine (Safe.pure v).bind fun v => ?_
    exact (emitFunction_safe ctx hparams hbody).bind fun function => .built (clean_memberStatement v m.name function)

end Emit

end ClassScript
