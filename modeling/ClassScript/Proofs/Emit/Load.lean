import ClassScript.Emit.Class
import ClassScript.Proofs.Emit.Construct
import ClassScript.Proofs.Script.Load
/-!
# Emission outside of functions

What stands outside of functions is evaluated when the program is loaded. `AtLoad` says what such an
emission gives. The paths that an emitted expression reads then go through the class constants, the
instantiations and the host objects that the expression names outside of closures (`emitExpr_atLoad`).
-/

namespace ClassScript

open Emit Script

/-! ## References of an expression -/

/-- The path of a host object that lies below the root. -/
def hostPaths (n : Name) : List (List String) :=
  match n.parts with
  | first :: second :: rest => if first = nativeNamespace ∧ second = rootName then [rest] else []
  | _ => []

/-- The path of a part of a declaration, or of a host object. -/
def declaredPaths (n : Name) (key : String) : List (List String) :=
  if (nativePath? n).isSome then hostPaths n else [Name.partsOf n.joined ++ [key]]

/-- The paths that an expression stands for, without those below it. The constants of the class around
it are at hand, so they are not reached by a path. -/
def Expr.ownReferences (owner : Option String) : Expr → List (List String)
  | .variable _ n synthetic => if synthetic ∧ n = rootName then [[]] else []
  | .const _ n | .call _ (.named n) _ | .instanceOf _ _ (.named n) => hostPaths n
  | .new _ (.named n) _ => declaredPaths n constructorName
  | .classConst _ (.named n) _ =>
    if owner = some n.joined ∧ (nativePath? n).isNone then [] else declaredPaths n constantsKey
  | _ => []

/-- The paths that an expression stands for outside of closures. -/
def Expr.references (owner : Option String) (e : Expr) : List (List String) :=
  e.fold fun e below => e.ownReferences owner ++ below.flatten

theorem Expr.references_eq (owner : Option String) (e : Expr) :
    e.references owner = e.ownReferences owner ++ e.subexprs.flatMap (references owner) := by
  have hfold : references owner = fold fun e below => e.ownReferences owner ++ below.flatten := rfl
  rw [references, Expr.fold, hfold]
  simp [List.flatMap_def]

/-- The paths that an expression stands for are among the given ones. -/
def Expr.RefersWithin (owner : Option String) (ps : List (List String)) (e : Expr) : Prop :=
  ∀ p ∈ e.references owner, p ∈ ps

namespace Expr.RefersWithin

variable {owner : Option String} {ps : List (List String)} {e s : Expr}

theorem own (h : e.RefersWithin owner ps) : ∀ p ∈ e.ownReferences owner, p ∈ ps := by
  intro p hp
  apply h
  rw [references_eq]
  exact List.mem_append_left _ hp

theorem sub (h : e.RefersWithin owner ps) (hs : s ∈ e.subexprs) : s.RefersWithin owner ps := by
  intro p hp
  apply h
  rw [references_eq]
  exact List.mem_append_right _ (List.mem_flatMap.2 ⟨s, hs, hp⟩)

end Expr.RefersWithin

namespace Emit

/-! ## Functions -/

/-- No variable can be declared outside of functions. -/
theorem atLoad_hoist (name : String) {Q : Unit → Prop} : AtLoad (hoist name) Q := nofun

/-- A function leaves its own frame behind. -/
theorem atLoad_functionOf (isConstructor : Bool) (parts : Emission (List Node × List Node)) :
    AtLoad (functionOf isConstructor parts) fun n => ∃ params body, n = .function params body := by
  have rest (params stmts : List Node) (hoisted : List String) (ending : List Node) : AtLoad (do
      let declared ← hoisted.mapM (fun n => (declare n none : Emission Node))
      function params (declared ++ stmts ++ ending) : Emission Node)
      fun n => ∃ params body, n = .function params body := by
    have hdeclared (n : String) : AtLoad (declare n none : Emission Node) fun _ => True := .built fun _ _ => trivial
    refine (Keeps.forall_mapM fun n _ => hdeclared n).bind fun _ _ => .built fun n hn => ?_
    obtain ⟨-, -, rfl⟩ := function_eq_ok.1 hn
    exact ⟨_, _, rfl⟩
  intro frame n frame' hframe hn
  rw [functionOf_run] at hn
  obtain ⟨⟨⟨params, stmts⟩, inner⟩, -, hn⟩ := bind_eq_ok.1 hn
  refine Keeps.ite ?_ (rest params stmts _ []) frame n frame' hframe hn
  exact (Keeps.built fun _ _ => trivial).bind fun _ (_ : True) =>
    (Keeps.built fun _ _ => trivial).bind fun ending (_ : True) => rest params stmts _ [ending]

/-! ## What emitted expressions read -/

variable {ps : List (List String)}

theorem makes_ident (name : String) : Makes (ident name) (· = .identifier name) :=
  fun _ hn => (ident_eq_ok.1 hn).2

theorem makes_path (first : String) (rest : List String) :
    Makes (path (first :: rest)) (· = pathNode first rest) := fun _ hn => (path_eq_ok.1 hn).2

theorem closed_loadsWithin (ps : List (List String)) : Builtin.Closed (LoadsWithin ps) where
  string s := .leaf rfl rfl
  null := .identifier (by decide)
  identical ha hb _ := .binary ha hb
  member ho _ := .member ho
  methodCall ho h _ := .methodCall ho h
  helper name hname args h := by
    have hroot : name ≠ rootName := by
      rintro rfl
      exact absurd hname (by decide)
    refine (makes_ident name).bind fun c hc n hn => ?_
    subst hc
    exact .call (.identifier hroot) rfl h hn
  math {name args} h := by
    refine (makes_path "Math" [name]).bind fun c hc n hn => ?_
    subst hc
    exact .call (.path (by decide) (path_eq_ok.2 ⟨rfl, rfl⟩)) (isAssignable_pathNode _ _) h hn

/-- A host object is named by a path, which counts if it starts at the root. -/
theorem makes_native_loads {n : Name} {b : Built Node} (h : nativePath? n = some b)
    (hps : ∀ p ∈ hostPaths n, p ∈ ps) : Makes b fun m => LoadsWithin ps m ∧ m.isAssignable = true := by
  unfold nativePath? at h
  unfold hostPaths at hps
  split at h
  · next first second rest hparts =>
    rw [hparts] at hps
    split at h
    · next hfirst =>
      cases h
      intro m hm
      have hassignable : m.isAssignable = true := by
        rw [(path_eq_ok.1 hm).2]
        exact isAssignable_pathNode _ _
      by_cases hroot : second = rootName
      · subst hroot
        exact ⟨.rootPath (hps rest (by simp [eq_of_beq hfirst])) hm, hassignable⟩
      · exact ⟨.path hroot hm, hassignable⟩
    · cases h
  · cases h

theorem mangle_ne_root (name : String) : mangle name ≠ rootName := by
  unfold mangle
  split
  · intro h
    have hlast := congrArg (fun s : String => s.toList.getLast?) h
    simp [rootName] at hlast
  · next htaken =>
    rintro rfl
    exact htaken (by decide)

theorem makes_variableNode_loads {pos : Position} {name : String} {synthetic : Bool} {owner : Option String}
    (hps : ∀ p ∈ (Expr.variable pos name synthetic).ownReferences owner, p ∈ ps) :
    Makes (variableNode name synthetic) (LoadsWithin ps) := by
  refine .ite (fun _ => .ident (by decide)) ?_
  split
  · next hsynthetic =>
    intro n hn
    by_cases hroot : name = rootName
    · subst hroot
      exact .rootPath (hps [] (by simp [Expr.ownReferences, hsynthetic])) hn
    · exact .ident hroot hn
  · exact fun _ => .ident (mangle_ne_root name)

theorem makes_binaryNode_loads (op : BinaryOp) {l r : Node} (hl : LoadsWithin ps l) (hr : LoadsWithin ps r) :
    Makes (binaryNode op l r) (LoadsWithin ps) := by
  have hpair : ∀ n ∈ [l, r], LoadsWithin ps n := by simp [hl, hr]
  have hidentical := (closed_loadsWithin ps).helper "__identical" (by decide) _ hpair
  unfold binaryNode
  split
  · exact fun _ => .methodCall hl (by simpa using hr)
  · exact (closed_loadsWithin ps).math hpair
  · exact hidentical
  · refine (makes_ident _).bind fun c hc => .bind (P := LoadsWithin ps) ?_ fun _ hn _ => .unary hn
    subst hc
    exact fun _ => .call (.identifier (by decide)) rfl hpair
  · exact .bind (fun _ => LoadsWithin.unary hl) fun _ hl => .bind (fun _ => LoadsWithin.unary hr)
      fun _ hr _ => .binary hl hr
  · exact fun _ => .binary hl hr

theorem makes_instanceCheck_loads {value : Node} (h : LoadsWithin ps value) {cls : Name}
    (hps : ∀ p ∈ hostPaths cls, p ∈ ps) : Makes (instanceCheck value cls) (LoadsWithin ps) := by
  unfold instanceCheck
  split
  · next native hnative => exact (makes_native_loads hnative hps).bind fun _ hn _ => .binary h hn.1
  · refine (closed_loadsWithin ps).helper instanceCheckName (by decide) _ ?_
    simp [h, (closed_loadsWithin ps).string]

theorem atLoad_constantValue {n : Name} (hps : ∀ p ∈ hostPaths n, p ∈ ps) :
    AtLoad (constantValue n) (LoadsWithin ps) := by
  unfold constantValue
  split
  · next native h => exact .built fun m hm => (makes_native_loads h hps m hm).1
  · split
    · next value h =>
      have hconstants : ∀ x ∈ Builtin.constants, Makes x.2 (LoadsWithin ps) := by
        simp only [Builtin.constants, List.forall_mem_cons]
        exact ⟨.pure (.leaf rfl rfl), .pure (.leaf rfl rfl), fun _ => .path (by decide), List.forall_mem_nil _⟩
      exact .built (hconstants (n.joined, value) (mem_of_lookup h))
    · exact .fail _

theorem atLoad_functionCall {n : Name} {args : List Node} (h : ∀ a ∈ args, LoadsWithin ps a)
    (hps : ∀ p ∈ hostPaths n, p ∈ ps) : AtLoad (functionCall n args) (LoadsWithin ps) := by
  unfold functionCall
  split
  · next native hnative =>
    exact (Keeps.built (makes_native_loads hnative hps)).bind fun _ hc => .built fun _ => .call hc.1 hc.2 h
  · dsimp only
    split
    · next hprelude =>
      have hroot : n.joined ≠ rootName := by
        intro heq
        rw [heq] at hprelude
        exact absurd hprelude (by decide)
      refine (Keeps.built (makes_ident _)).bind fun c hc => ?_
      subst hc
      exact .built fun _ => .call (.identifier hroot) rfl h
    · split
      · next node hnode => exact .result (Builtin.preserves_call (closed_loadsWithin ps) h hnode)
      · exact .fail _

/-- A part of a declaration is read through the path of the declaration. -/
theorem loadsWithin_part {q key : String} {o n : Node} (ho : classPath q = .ok o) (hn : member o key = .ok n)
    (hps : Name.partsOf q ++ [key] ∈ ps) : LoadsWithin ps n ∧ n.isAssignable = true := by
  obtain rfl := classPath_eq_ok.1 ho
  obtain ⟨-, rfl⟩ := member_eq_ok.1 hn
  rw [← pathNode_concat]
  exact ⟨.rootPath hps (path_eq_ok.2 ⟨by decide, rfl⟩), isAssignable_pathNode _ _⟩

theorem atLoad_instantiation (ctx : Context) {cls : Name} {args : List Node} (h : ∀ a ∈ args, LoadsWithin ps a)
    (hps : ∀ p ∈ declaredPaths cls constructorName, p ∈ ps) :
    AtLoad (instantiation ctx cls args) (LoadsWithin ps) := by
  unfold instantiation
  unfold declaredPaths at hps
  split
  · next native hnative =>
    rw [hnative] at hps
    exact (Keeps.built (makes_native_loads hnative hps)).bind fun _ hc => .built fun _ => .new hc.1 h
  · next hnative =>
    rw [hnative] at hps
    refine .ite ?_ (.ite (.fail _) (.fail _))
    refine (Keeps.built fun _ ho => ho).bind fun o ho => (Keeps.built fun _ hn => hn).bind fun c hc => ?_
    obtain ⟨hwithin, hassignable⟩ := loadsWithin_part ho hc (hps _ (by simp))
    exact .built fun _ => .call hwithin hassignable h

theorem atLoad_namedClass (c : ClassRef) : AtLoad (namedClass c) fun n => c = .named n := by
  cases c with
  | named n => exact .pure rfl
  | _ => exact .fail _

theorem atLoad_classConstant (ctx : Context) {pos : Position} {cls : ClassRef} {constant : String}
    (hps : ∀ p ∈ (Expr.classConst pos cls constant).ownReferences ctx.constantsOwner, p ∈ ps) :
    AtLoad (classConstant ctx cls constant) (LoadsWithin ps) := by
  refine (atLoad_namedClass cls).bind fun n hn => ?_
  subst hn
  refine .ite (.pure ((closed_loadsWithin ps).string _)) ?_
  simp only [Expr.ownReferences, declaredPaths] at hps
  split
  · next native hnative =>
    rw [hnative] at hps
    exact (Keeps.built (makes_native_loads hnative (by simpa using hps))).bind
      fun _ ho => .built fun _ => .member ho.1
  · next hnative =>
    rw [hnative] at hps
    refine .ite (.ite ?_ (.stop _ _)) (.stop _ _)
    split
    · refine (Keeps.built (makes_ident _)).bind fun o ho => .built fun _ => .member ?_
      exact ho ▸ .identifier (by decide)
    · next howner =>
      have hpath : Name.partsOf n.joined ++ [constantsKey] ∈ ps := hps _ (by simp_all)
      refine (Keeps.built fun _ ho => ho).bind fun o ho => (Keeps.built fun _ hk => hk).bind fun k hk =>
        .built fun m hm => ?_
      obtain ⟨c, hc, ho⟩ := bind_eq_ok.1 ho
      obtain ⟨hname, rfl⟩ := ident_eq_ok.1 hk
      obtain ⟨-, -, -, rfl⟩ := propertyOf_eq_ok.1 hm
      have hkey : Node.identifier constant = keyNode constant := by simp [keyNode, hname]
      rw [hkey]
      exact (loadsWithin_part hc ho hpath).1.keyed constant

theorem atLoad_thisMember {object : Expr} {name : MemberName} {v : Option Visibility} {pos : Position}
    {act : Emission Node} (h : thisMember? object name v pos = some act) :
    AtLoad act fun n => LoadsWithin ps n ∧ n.isAssignable = true := by
  unfold thisMember? at h
  split at h
  · cases h
    cases name with
    | ident n =>
      have hvisibility : AtLoad (resolvedVisibility v ("$this->" ++ n)) fun _ => True := by
        unfold resolvedVisibility
        split
        · exact .pure trivial
        · exact .fail _
      refine hvisibility.bind fun v _ => (Keeps.built (makes_ident _)).bind fun o ho => .built fun m hm => ?_
      subst ho
      obtain ⟨-, rfl⟩ := member_eq_ok.1 hm
      have hroot : bucket v ≠ rootName := by cases v <;> decide
      exact ⟨(LoadsWithin.identifier hroot).keyed n, rfl⟩
    | dynamic e => exact .failAt _ _
  · cases h

theorem atLoad_declared? (target : Expr) (declares : Option Bool) :
    AtLoad (declared? target declares) fun _ => True := by
  unfold declared?
  split
  · refine .ite (.pure trivial) ?_
    split
    · exact .pure trivial
    · exact .fail _
  · exact .pure trivial

mutual

variable (ctx : Context)

/-- Outside of functions, an emitted expression reads only what the expression stands for. -/
theorem emitExpr_atLoad : (e : Expr) → e.RefersWithin ctx.constantsOwner ps →
    AtLoad (emitExpr ctx e) (LoadsWithin ps)
  | .variable p _ _, h => .located (.built (makes_variableNode_loads h.own)) p
  | .int p _, _ => .located (.pure (.leaf rfl rfl)) p
  | .float p _, _ => .located (.pure (.leaf rfl rfl)) p
  | .string p _, _ => .located (.pure (.leaf rfl rfl)) p
  | .bool p v, _ => .located (.pure (.identifier (by cases v <;> decide))) p
  | .null p, _ => .located (.pure (.identifier (by decide))) p
  | .const p _, h => .located (atLoad_constantValue h.own) p
  | .anonymousClass p, _ => .located (.fail _) p
  | .dynamicVariable p _, _ => .located (.fail _) p
  | .array p .., _ => .located (.fail _) p
  | .index p .., _ => .located (.fail _) p
  | .assignOp p .., _ => .located (.fail _) p
  | .step p .., _ => .located (.fail _) p
  | .staticCall p .., _ => .located (.fail _) p
  | .staticProperty p .., _ => .located (.fail _) p
  | .property p o n v, h => by
    have ho := emitExpr_atLoad o (h.sub (.head _))
    have hmember := fun object (hobject : LoadsWithin ps object) => emitMember_atLoad hobject n
      fun e he => h.sub (List.mem_cons_of_mem _ he)
    rw [emitExpr_property]
    refine .located ?_ p
    split
    · next node hnode => exact (atLoad_thisMember hnode).imp fun _ hn => hn.1
    · exact ho.bind fun object hobject => (hmember object hobject).imp fun _ hn => hn.1
  | .methodCall p o n as v, h => by
    have ho := emitExpr_atLoad o (h.sub (.head _))
    have hmember := fun object (hobject : LoadsWithin ps object) => emitMember_atLoad hobject n
      fun e he => h.sub (List.mem_cons_of_mem _ (List.mem_append_left _ he))
    have hargs := emitArgs_atLoad as fun e he => h.sub (List.mem_cons_of_mem _ (List.mem_append_right _ he))
    have hcall (callee : Node) (hcallee : LoadsWithin ps callee ∧ callee.isAssignable = true) :
        AtLoad (do call callee (← emitArgs ctx as) : Emission Node) (LoadsWithin ps) :=
      hargs.bind fun _ has => .built fun _ => .call hcallee.1 hcallee.2 has
    refine .located ?_ p
    show AtLoad (match thisMember? o n v p with
      | some node => do
        let callee ← node
        call callee (← emitArgs ctx as)
      | none => do
        let callee ← emitMember ctx (← emitExpr ctx o) n
        call callee (← emitArgs ctx as)) (LoadsWithin ps)
    split
    · next node hnode => exact (atLoad_thisMember hnode).bind hcall
    · exact ho.bind fun object hobject => (hmember object hobject).bind hcall
  | .classConst p _ _, h => .located (atLoad_classConstant ctx h.own) p
  | .call p (.named n) as, h =>
    .located ((emitArgs_atLoad as fun _ he => h.sub he).bind fun _ has => atLoad_functionCall has h.own) p
  | .call p (.dynamic _) _, _ => .located (.fail _) p
  | .new p c as, h => by
    refine .located ((atLoad_namedClass c).bind fun n hn => ?_) p
    subst hn
    exact (emitArgs_atLoad as fun _ he => h.sub he).bind fun _ has => atLoad_instantiation ctx has h.own
  | .assign p t v d, h => by
    have ht := emitExpr_atLoad t (h.sub (.head _))
    refine .located ((emitExpr_atLoad v (h.sub (.tail _ (.head _)))).bind fun v hv =>
      (atLoad_declared? t d).bind fun n _ => ?_) p
    cases n with
    | none => exact .ite (ht.bind fun _ ht => .built fun _ => .assign ht hv) (.failAt _ _)
    | some n => exact (atLoad_hoist n (Q := fun _ => False)).bind nofun
  | .binary p op l r, h => .located ((emitExpr_atLoad l (h.sub (.head _))).bind fun _ hl =>
      (emitExpr_atLoad r (h.sub (.tail _ (.head _)))).bind fun _ hr =>
        .built (makes_binaryNode_loads op hl hr)) p
  | .unary p op e, h => .located ((emitExpr_atLoad e (h.sub (.head _))).bind fun _ he =>
      .built fun _ => .unary he) p
  | .ternary p c (some t) o, h => .located ((emitExpr_atLoad c (h.sub (.head _))).bind fun _ hc =>
      (emitExpr_atLoad o (h.sub (by simp [Expr.subexprs]))).bind fun _ ho =>
        (emitExpr_atLoad t (h.sub (by simp [Expr.subexprs]))).bind fun _ ht =>
          .built fun _ => .ternary hc ht ho) p
  | .ternary p c none o, h => .located ((emitExpr_atLoad c (h.sub (.head _))).bind fun _ hc =>
      (emitExpr_atLoad o (h.sub (by simp [Expr.subexprs]))).bind fun _ ho =>
        .built fun _ => .chain (by simp [hc, ho])) p
  | .instanceOf p v c, h => by
    refine .located ((atLoad_namedClass c).bind fun n hn => ?_) p
    subst hn
    exact (emitExpr_atLoad v (h.sub (.head _))).bind fun _ hv => .built (makes_instanceCheck_loads hv h.own)
  | .cast p t e, h => .located ((emitExpr_atLoad e (h.sub (.head _))).bind fun _ he =>
      .built ((closed_loadsWithin ps).convert t he)) p
  | .isset p es, h => by
    refine .located ((emitExprs_atLoad es fun _ he => h.sub he).bind fun ns hns => ?_) p
    refine (Keeps.forall_mapM fun n hn => ?_).bind fun _ hchecks => .built fun _ => .chain hchecks
    refine (Keeps.built (makes_ident _)).bind fun c hc => ?_
    subst hc
    exact .built fun _ => .call (.identifier (by decide)) rfl (by simpa using hns n hn)
  | .closure p ⟨_, _, _, _, _, _⟩, _ => by
    refine .located ((atLoad_functionOf false _).imp fun n hn => ?_) p
    obtain ⟨_, _, rfl⟩ := hn
    exact .leaf rfl rfl

theorem emitMember_atLoad {object : Node} (ho : LoadsWithin ps object) :
    (n : MemberName) → (∀ e ∈ n.exprs, e.RefersWithin ctx.constantsOwner ps) →
    AtLoad (emitMember ctx object n) fun m => LoadsWithin ps m ∧ m.isAssignable = true
  | .ident _, _ => .built fun _ hm => ⟨.member ho hm, (member_eq_ok.1 hm).2 ▸ rfl⟩
  | .dynamic e, h => (emitExpr_atLoad e (h e (.head _))).bind fun _ hk => .built fun _ hm =>
      ⟨.propertyOf ho hk hm, (propertyOf_eq_ok.1 hm).2.2.2 ▸ rfl⟩

theorem emitExprs_atLoad : (es : List Expr) → (∀ e ∈ es, e.RefersWithin ctx.constantsOwner ps) →
    AtLoad (emitExprs ctx es) fun ns => ∀ n ∈ ns, LoadsWithin ps n
  | [], _ => .pure nofun
  | e :: rest, h => (emitExpr_atLoad e (h e (.head _))).bind fun _ he =>
      (emitExprs_atLoad rest fun _ hs => h _ (.tail _ hs)).bind fun _ hrest =>
        .pure (List.forall_mem_cons.2 ⟨he, hrest⟩)

theorem emitArgs_atLoad : (as : List Arg) → (∀ e ∈ argExprs as, e.RefersWithin ctx.constantsOwner ps) →
    AtLoad (emitArgs ctx as) fun ns => ∀ n ∈ ns, LoadsWithin ps n
  | [], _ => .pure nofun
  | ⟨v, _⟩ :: rest, h => (emitExpr_atLoad v (h v (.head _))).bind fun _ hv =>
      (emitArgs_atLoad rest fun _ hs => h _ (.tail _ hs)).bind fun _ hrest =>
        .pure (List.forall_mem_cons.2 ⟨hv, hrest⟩)

end

end Emit

end ClassScript
