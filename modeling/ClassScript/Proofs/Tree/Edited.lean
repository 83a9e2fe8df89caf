import ClassScript.Proofs.Tree.Inert
/-!
# Parts that are edited from below

An edited part is rebuilt from its edited children and then edited itself (`Edited`).

What a rebuilt part is depends only on what becomes of its children, as long as nothing is learned on the way
(`Rebuilt.steady`). If they stay, the part is the same (`Rebuilt.eq_of_children`), so an edited part is the same if
and only if no edit changes anything in it (`Edited.eq_iff`).
-/

namespace ClassScript

/-! ## One place for all children -/

section Steady

variable {κ : Type} {k k' : κ}

theorem Each.steady {α β : Type} {S : κ → α → β → κ → Prop} {S' : Unit → α → β → Unit → Prop} {as : List α}
    {bs : List β} (h : Each S k as bs k') (hsame : ∀ {k a b k'}, S k a b k' → k' = k)
    (hS : ∀ a ∈ as, ∀ {b}, S k a b k → S' () a b ()) : Each S' () as bs () := by
  induction h with
  | nil => exact .nil
  | cons ha _ ih =>
    cases hsame ha
    exact .cons (hS _ (.head _) ha) (ih fun a ha => hS a (.tail _ ha))

theorem Held.steady {α β : Type} {S : κ → α → β → κ → Prop} {S' : Unit → α → β → Unit → Prop} {a : Option α}
    {b : Option β} (h : Held S k a b k') (hsame : ∀ {k a b k'}, S k a b k' → k' = k)
    (hS : ∀ x ∈ a.toList, ∀ {y}, S k x y k → S' () x y ()) : Held S' () a b () := by
  cases h with
  | none => exact .none
  | some ha =>
    cases hsame ha
    exact .some (hS _ (.head _) ha)

variable {R : Change κ} {R' : Change Unit} (hsame : ∀ {k p ps k'}, R k p ps k' → k' = k)

include hsame

namespace Change

theorem MemberName.steady {n n' : ClassScript.MemberName} (h : R.MemberName k n n' k')
    (hR : ∀ c ∈ Part.ofMemberName n, ∀ {cs}, R k c cs k → R' () c cs ()) : R'.MemberName () n n' () := by
  cases h with
  | ident => exact .ident
  | dynamic he =>
    cases hsame he
    exact .dynamic (hR _ (.head _) he)

theorem ClassRef.steady {c c' : ClassScript.ClassRef} (h : R.ClassRef k c c' k')
    (hR : ∀ p ∈ Part.ofClassRef c, ∀ {ps}, R k p ps k → R' () p ps ()) : R'.ClassRef () c c' () := by
  cases h with
  | fixed hc => exact .fixed hc
  | dynamic he =>
    cases hsame he
    exact .dynamic (hR _ (.head _) he)

theorem Callee.steady {c c' : ClassScript.Callee} (h : R.Callee k c c' k')
    (hR : ∀ p ∈ Part.ofCallee c, ∀ {ps}, R k p ps k → R' () p ps ()) : R'.Callee () c c' () := by
  cases h with
  | named => exact .named
  | dynamic he =>
    cases hsame he
    exact .dynamic (hR _ (.head _) he)

theorem steadyArgs {as as' : List ClassScript.Arg} (h : Each R.Arg k as as' k')
    (hR : ∀ c ∈ Part.ofArgs as, ∀ {cs}, R k c cs k → R' () c cs ()) : Each R'.Arg () as as' () := by
  induction h with
  | nil => exact .nil
  | cons ha _ ih =>
    obtain ⟨hv⟩ := ha
    obtain ⟨hvalue, hR⟩ := List.forall_mem_cons.1 hR
    cases hsame hv
    exact .cons (.mk (hvalue hv)) (ih hR)

theorem steadyItems {is is' : List ArrayItem} (h : Each R.Item k is is' k')
    (hR : ∀ c ∈ Part.ofItems is, ∀ {cs}, R k c cs k → R' () c cs ()) : Each R'.Item () is is' () := by
  induction h with
  | nil => exact .nil
  | cons hi _ ih =>
    obtain ⟨hkey, hv⟩ := hi
    obtain ⟨hkeys, hR⟩ := List.forall_mem_append.1 hR
    obtain ⟨hvalue, hR⟩ := List.forall_mem_cons.1 hR
    cases hkey.exprs.same hsame
    cases hsame hv
    exact .cons (.mk (hkey.steady hsame fun e he => List.forall_mem_map.1 hkeys e he) (hvalue hv)) (ih hR)

theorem Stmts.steady {ss ss' : List Stmt} (h : R.Stmts k ss ss' k')
    (hR : ∀ s ∈ ss, ∀ {cs}, R k (.stmt s) cs k → R' () (.stmt s) cs ()) : R'.Stmts () ss ss' () := by
  induction h with
  | nil => exact .nil
  | cons hs _ ih =>
    cases hsame hs
    exact .cons (hR _ (.head _) hs) (ih fun s hs => hR s (.tail _ hs))

theorem steadyBody {b b' : Option (List Stmt)} (h : Held R.Stmts k b b' k')
    (hR : ∀ s ∈ b.getD [], ∀ {cs}, R k (.stmt s) cs k → R' () (.stmt s) cs ()) : Held R'.Stmts () b b' () := by
  cases h with
  | none => exact .none
  | some hb => exact .some (hb.steady hsame hR)

theorem steadyElseIfs {bs bs' : List ClassScript.ElseIf} (h : Each R.ElseIf k bs bs' k')
    (hR : ∀ c ∈ Part.elseIfs bs, ∀ {cs}, R k c cs k → R' () c cs ()) : Each R'.ElseIf () bs bs' () := by
  induction h with
  | nil => exact .nil
  | cons hb _ ih =>
    obtain ⟨hc, hb⟩ := hb
    obtain ⟨htest, hR⟩ := List.forall_mem_cons.1 hR
    obtain ⟨hbody, hR⟩ := List.forall_mem_append.1 hR
    cases hsame hc
    cases hb.chunks.same hsame
    exact .cons (.mk (htest hc) (hb.steady hsame (List.forall_mem_map.1 hbody))) (ih hR)

theorem steadyMembers {ms ms' : List ClassScript.Member} (h : Each R.Member k ms ms' k')
    (hR : ∀ c ∈ Part.members ms, ∀ {cs}, R k c cs k → R' () c cs ()) : Each R'.Member () ms ms' () := by
  induction h with
  | nil => exact .nil
  | cons hm _ ih =>
    cases hm with
    | property hd =>
      obtain ⟨hdefault, hR⟩ := List.forall_mem_append.1 hR
      cases hd.exprs.same hsame
      exact .cons (.property (hd.steady hsame fun e he => List.forall_mem_map.1 hdefault e he)) (ih hR)
    | const hv =>
      obtain ⟨hvalue, hR⟩ := List.forall_mem_cons.1 hR
      cases hsame hv
      exact .cons (.const (hvalue hv)) (ih hR)
    | method hd =>
      obtain ⟨hmethod, hR⟩ := List.forall_mem_cons.1 hR
      cases hsame hd
      exact .cons (.method (hmethod hd)) (ih hR)
    | traitUse => exact .cons .traitUse (ih hR)

theorem steadyInterfaceMembers {ms ms' : List ClassScript.Member} (h : Each R.InterfaceMember k ms ms' k')
    (hR : ∀ c ∈ Part.interfaceMembers ms, ∀ {cs}, R k c cs k → R' () c cs ()) :
    Each R'.InterfaceMember () ms ms' () := by
  induction h with
  | nil => exact .nil
  | cons hm _ ih =>
    cases hm with
    | property => exact .cons .property (ih hR)
    | other hnot hm =>
      cases hm with
      | property => cases hnot
      | const hv =>
        obtain ⟨hvalue, hR⟩ := List.forall_mem_cons.1 hR
        cases hsame hv
        exact .cons (.other rfl (.const (hvalue hv))) (ih hR)
      | method hd =>
        obtain ⟨hmethod, hR⟩ := List.forall_mem_cons.1 hR
        cases hsame hd
        exact .cons (.other rfl (.method (hmethod hd))) (ih hR)
      | traitUse => exact .cons (.other rfl .traitUse) (ih hR)

end Change

/-- If nothing is learned on the way, all children are changed from one place. -/
theorem Rebuilt.steady {p p' : Part} (h : Rebuilt R k p p' k')
    (hR : ∀ c ∈ p.children, ∀ {cs}, R k c cs k → R' () c cs ()) : Rebuilt R' () p p' () := by
  have one {c : Part} {cs : List Part} {k' : κ} (hc : c ∈ p.children) (hcs : R k c cs k') : R' () c cs () := by
    cases hsame hcs
    exact hR c hc hcs
  cases h with
  | leaf h => exact .leaf h
  | dynamicVariable h => exact .dynamicVariable (one (.head _) h)
  | array h => exact .array (Change.steadyItems hsame h hR)
  | index ht hd =>
    cases hsame ht
    exact .index (one (.head _) ht) (hd.steady hsame fun e he => hR _ (.tail _ (List.mem_map_of_mem he)))
  | property ho hn =>
    cases hsame ho
    exact .property (one (.head _) ho) (hn.steady hsame fun c hc => hR c (.tail _ hc))
  | methodCall ho hn has =>
    obtain ⟨-, hR⟩ := List.forall_mem_cons.1 hR
    obtain ⟨hname, hargs⟩ := List.forall_mem_append.1 hR
    cases hsame ho
    cases hn.chunks.same hsame
    exact .methodCall (one (.head _) ho) (hn.steady hsame hname) (Change.steadyArgs hsame has hargs)
  | staticCall hc hn has =>
    obtain ⟨hR, hargs⟩ := List.forall_mem_append.1 hR
    obtain ⟨hcls, hname⟩ := List.forall_mem_append.1 hR
    cases hc.chunks.same hsame
    cases hn.chunks.same hsame
    exact .staticCall (hc.steady hsame hcls) (hn.steady hsame hname) (Change.steadyArgs hsame has hargs)
  | staticProperty h => exact .staticProperty (h.steady hsame hR)
  | classConst h => exact .classConst (h.steady hsame hR)
  | call hc has =>
    obtain ⟨hcallee, hargs⟩ := List.forall_mem_append.1 hR
    cases hc.chunks.same hsame
    exact .call (hc.steady hsame hcallee) (Change.steadyArgs hsame has hargs)
  | new hc has =>
    obtain ⟨hcls, hargs⟩ := List.forall_mem_append.1 hR
    cases hc.chunks.same hsame
    exact .new (hc.steady hsame hcls) (Change.steadyArgs hsame has hargs)
  | assign ht hv =>
    cases hsame ht
    exact .assign (one (.head _) ht) (one (.tail _ (.head _)) hv)
  | assignOp ht hv =>
    cases hsame ht
    exact .assignOp (one (.head _) ht) (one (.tail _ (.head _)) hv)
  | step h => exact .step (one (.head _) h)
  | binary hl hr =>
    cases hsame hl
    exact .binary (one (.head _) hl) (one (.tail _ (.head _)) hr)
  | unary h => exact .unary (one (.head _) h)
  | ternary hc ht ho =>
    obtain ⟨-, hsubs⟩ := List.forall_mem_cons.1 hR
    obtain ⟨htrue, hotherwise⟩ := List.forall_mem_append.1 hsubs
    cases hsame hc
    cases ht.exprs.same hsame
    cases hsame ho
    exact .ternary (one (.head _) hc) (ht.steady hsame fun e he => List.forall_mem_map.1 htrue e he)
      (hotherwise _ (.head _) ho)
  | instanceOf hv hc =>
    cases hsame hv
    exact .instanceOf (one (.head _) hv) (hc.steady hsame fun p hp => hR p (.tail _ hp))
  | cast h => exact .cast (one (.head _) h)
  | isset h => exact .isset (h.steady hsame fun e he => hR _ (List.mem_map_of_mem he))
  | function h => exact .function (one (.head _) h)
  | expression h => exact .expression (one (.head _) h)
  | echo h => exact .echo (h.steady hsame fun e he => hR _ (List.mem_map_of_mem he))
  | ret h => exact .ret (h.steady hsame fun e he => hR _ (List.mem_map_of_mem he))
  | branch hc ht hei ho =>
    obtain ⟨-, hR⟩ := List.forall_mem_cons.1 hR
    obtain ⟨hR, helse⟩ := List.forall_mem_append.1 hR
    obtain ⟨hthen, helseIfs⟩ := List.forall_mem_append.1 hR
    cases hsame hc
    cases ht.chunks.same hsame
    cases (Change.elseIfs hei).same hsame
    exact .branch (one (.head _) hc) (ht.steady hsame (List.forall_mem_map.1 hthen))
      (Change.steadyElseIfs hsame hei helseIfs) (Change.steadyBody hsame ho (List.forall_mem_map.1 helse))
  | whileLoop hc hb =>
    cases hsame hc
    exact .whileLoop (one (.head _) hc) (hb.steady hsame fun s hs => hR _ (.tail _ (List.mem_map_of_mem hs)))
  | forLoop hi hc hs hb =>
    obtain ⟨hR, hbody⟩ := List.forall_mem_append.1 hR
    obtain ⟨hR, hstep⟩ := List.forall_mem_append.1 hR
    obtain ⟨hinit, htest⟩ := List.forall_mem_append.1 hR
    cases hi.exprs.same hsame
    cases hc.exprs.same hsame
    cases hs.exprs.same hsame
    exact .forLoop (hi.steady hsame fun e he => List.forall_mem_map.1 hinit e he)
      (hc.steady hsame fun e he => List.forall_mem_map.1 htest e he)
      (hs.steady hsame fun e he => List.forall_mem_map.1 hstep e he)
      (hb.steady hsame (List.forall_mem_map.1 hbody))
  | foreach hs hk hv hb =>
    obtain ⟨-, hR⟩ := List.forall_mem_cons.1 hR
    obtain ⟨hkey, hR⟩ := List.forall_mem_append.1 hR
    obtain ⟨hvalue, hbody⟩ := List.forall_mem_cons.1 hR
    cases hsame hs
    cases hk.exprs.same hsame
    cases hsame hv
    exact .foreach (one (.head _) hs) (hk.steady hsame fun e he => List.forall_mem_map.1 hkey e he) (hvalue hv)
      (hb.steady hsame (List.forall_mem_map.1 hbody))
  | throwValue h => exact .throwValue (one (.head _) h)
  | tryCatch hb hcs hf =>
    obtain ⟨hR, hcleanup⟩ := List.forall_mem_append.1 hR
    obtain ⟨hbody, hclauses⟩ := List.forall_mem_append.1 hR
    cases hb.chunks.same hsame
    cases (Change.clauses hcs).same hsame
    exact .tryCatch (hb.steady hsame (List.forall_mem_map.1 hbody))
      (hcs.steady hsame fun c hc => List.forall_mem_map.1 hclauses c hc)
      (Change.steadyBody hsame hf (List.forall_mem_map.1 hcleanup))
  | block h => exact .block (h.steady hsame (List.forall_mem_map.1 hR))
  | nsBlock h => exact .nsBlock (h.steady hsame (List.forall_mem_map.1 hR))
  | classDecl h => exact .classDecl (one (.head _) h)
  | interfaceDecl h => exact .interfaceDecl (one (.head _) h)
  | closure hps hb =>
    obtain ⟨hparams, hbody⟩ := List.forall_mem_append.1 hR
    cases (Change.params hps).same hsame
    exact .closure (hps.steady hsame fun q hq => List.forall_mem_map.1 hparams q hq)
      (hb.steady hsame (List.forall_mem_map.1 hbody))
  | param h => exact .param (h.steady hsame fun e he => hR _ (List.mem_map_of_mem he))
  | clause h => exact .clause (h.steady hsame (List.forall_mem_map.1 hR))
  | method hps hb =>
    obtain ⟨hparams, hbody⟩ := List.forall_mem_append.1 hR
    cases (Change.params hps).same hsame
    exact .method (hps.steady hsame fun q hq => List.forall_mem_map.1 hparams q hq)
      (Change.steadyBody hsame hb (List.forall_mem_map.1 hbody))
  | cls h => exact .cls (Change.steadyMembers hsame h hR)
  | iface h => exact .iface (Change.steadyInterfaceMembers hsame h hR)

end Steady

/-! ## The same children -/

section Same

theorem Each.eq {κ α : Type} {S : κ → α → α → κ → Prop} (hS : ∀ {k a b k'}, S k a b k' → b = a) {k k' : κ}
    {as bs : List α} (h : Each S k as bs k') : bs = as := by
  induction h with
  | nil => rfl
  | cons ha _ ih => rw [hS ha, ih]

theorem Held.eq {κ α : Type} {S : κ → α → α → κ → Prop} (hS : ∀ {k a b k'}, S k a b k' → b = a) {k k' : κ}
    {a b : Option α} (h : Held S k a b k') : b = a := by
  cases h with
  | none => rfl
  | some ha => rw [hS ha]

/-- The part stays. -/
def Stays (_ : Unit) (p : Part) (ps : List Part) (_ : Unit) : Prop := ps = [p]

namespace Stays

open Change

variable {k k' : Unit}

theorem expr_eq {e e' : Expr} (h : Change.expr Stays k e e' k') : e' = e := by cases h; rfl

theorem param_eq {p p' : Param} (h : Change.param Stays k p p' k') : p' = p := by cases h; rfl

theorem clause_eq {c c' : Catch} (h : Change.clause Stays k c c' k') : c' = c := by cases h; rfl

theorem memberName_eq {n n' : ClassScript.MemberName} (h : Change.MemberName Stays k n n' k') : n' = n := by
  cases h with
  | ident => rfl
  | dynamic h => rw [expr_eq h]

theorem classRef_eq {c c' : ClassScript.ClassRef} (h : Change.ClassRef Stays k c c' k') : c' = c := by
  cases h with
  | fixed => rfl
  | dynamic h => rw [expr_eq h]

theorem callee_eq {c c' : ClassScript.Callee} (h : Change.Callee Stays k c c' k') : c' = c := by
  cases h with
  | named => rfl
  | dynamic h => rw [expr_eq h]

theorem arg_eq {a a' : ClassScript.Arg} (h : Change.Arg Stays k a a' k') : a' = a := by
  obtain ⟨h⟩ := h
  rw [expr_eq h]

theorem item_eq {i i' : ArrayItem} (h : Change.Item Stays k i i' k') : i' = i := by
  obtain ⟨hkey, hv⟩ := h
  rw [hkey.eq expr_eq, expr_eq hv]

theorem stmts_eq {ss ss' : List Stmt} (h : Change.Stmts Stays k ss ss' k') : ss' = ss := by
  induction h with
  | nil => rfl
  | cons hs _ ih =>
    obtain ⟨s, rfl, hs⟩ := List.map_eq_singleton_iff.1 hs
    cases hs
    rw [ih, List.singleton_append]

theorem elseIf_eq {b b' : ClassScript.ElseIf} (h : Change.ElseIf Stays k b b' k') : b' = b := by
  obtain ⟨hc, hb⟩ := h
  rw [expr_eq hc, stmts_eq hb]

theorem member_eq {m m' : ClassScript.Member} (h : Change.Member Stays k m m' k') : m' = m := by
  cases h with
  | property hd => rw [hd.eq expr_eq]
  | const hv => rw [expr_eq hv]
  | method hm => cases hm; rfl
  | traitUse => rfl

theorem interfaceMember_eq {m m' : ClassScript.Member} (h : Change.InterfaceMember Stays k m m' k') : m' = m := by
  cases h with
  | property => rfl
  | other _ h => exact member_eq h

end Stays

open Stays in
theorem Rebuilt.eq_of_stays {k k' : Unit} {p p' : Part} (h : Rebuilt Stays k p p' k') : p' = p := by
  cases h with
  | leaf => rfl
  | array h => rw [h.eq item_eq]
  | index ht hd => rw [expr_eq ht, hd.eq expr_eq]
  | property ho hn => rw [expr_eq ho, memberName_eq hn]
  | methodCall ho hn has => rw [expr_eq ho, memberName_eq hn, has.eq arg_eq]
  | staticCall hc hn has => rw [classRef_eq hc, memberName_eq hn, has.eq arg_eq]
  | staticProperty h | classConst h => rw [classRef_eq h]
  | call hc has => rw [callee_eq hc, has.eq arg_eq]
  | new hc has => rw [classRef_eq hc, has.eq arg_eq]
  | assign ht hv | assignOp ht hv | binary ht hv => rw [expr_eq ht, expr_eq hv]
  | ternary hc ht ho => rw [expr_eq hc, ht.eq expr_eq, expr_eq ho]
  | instanceOf hv hc => rw [expr_eq hv, classRef_eq hc]
  | dynamicVariable h | step h | unary h | cast h | expression h | throwValue h => rw [expr_eq h]
  | isset h | echo h => rw [h.eq expr_eq]
  | ret h | param h => rw [h.eq expr_eq]
  | function h | classDecl h | interfaceDecl h => cases h; rfl
  | branch hc ht hei ho => rw [expr_eq hc, stmts_eq ht, hei.eq elseIf_eq, ho.eq stmts_eq]
  | whileLoop hc hb => rw [expr_eq hc, stmts_eq hb]
  | forLoop hi hc hs hb => rw [hi.eq expr_eq, hc.eq expr_eq, hs.eq expr_eq, stmts_eq hb]
  | foreach hs hk hv hb => rw [expr_eq hs, hk.eq expr_eq, expr_eq hv, stmts_eq hb]
  | tryCatch hb hcs hf => rw [stmts_eq hb, hcs.eq clause_eq, hf.eq stmts_eq]
  | block h | nsBlock h | clause h => rw [stmts_eq h]
  | closure hps hb => rw [hps.eq param_eq, stmts_eq hb]
  | method hps hb => rw [hps.eq param_eq, hb.eq stmts_eq]
  | cls h => rw [h.eq member_eq]
  | iface h => rw [h.eq interfaceMember_eq]

/-- A rebuilt part whose children stay is the same. -/
theorem Rebuilt.eq_of_children {R : Change Unit} {k k' : Unit} {p p' : Part} (h : Rebuilt R k p p' k')
    (hR : ∀ c ∈ p.children, ∀ {cs}, R () c cs () → cs = [c]) : p' = p := by
  have hstays : Rebuilt Stays () p p' () := h.steady (fun _ => rfl) hR
  exact hstays.eq_of_stays

end Same

/-! ## Edited parts -/

section Edited

variable {κ : Type}

/-- Each child becomes a part that stands in the relation to it. -/
def Childwise (S : Part → Part → Prop) (_ : Unit) (p : Part) (ps : List Part) (_ : Unit) : Prop :=
  ∃ p', ps = [p'] ∧ S p p'

/-- The part with its children edited, each in its own context, and then edited by itself. `edit` sees the part as
it was and as it is rebuilt. -/
def Edited (enter : κ → Part → κ) (edit : κ → Part → Part → Part → Prop) (k : κ) (p p' : Part) : Prop :=
  ∃ q, Rebuilt (Childwise fun c c' => ∃ _ : c ∈ p.children, Edited enter edit (enter k p) c c') () p q () ∧
    edit k p q p'
termination_by p.size
decreasing_by exact Part.size_lt_of_mem_children ‹_›

variable {enter : κ → Part → κ} {edit : κ → Part → Part → Part → Prop} {k : κ} {p p' : Part}

theorem edited_iff : Edited enter edit k p p' ↔
    ∃ q, Rebuilt (Childwise (Edited enter edit (enter k p))) () p q () ∧ edit k p q p' := by
  rw [Edited]
  refine exists_congr fun q => and_congr_left fun _ => ⟨fun h => ?_, fun h => ?_⟩
  · exact h.steady (fun _ => rfl) fun c _ _ ⟨c', hcs, _, hc'⟩ => ⟨c', hcs, hc'⟩
  · exact h.steady (fun _ => rfl) fun c hc _ ⟨c', hcs, hc'⟩ => ⟨c', hcs, hc, hc'⟩

theorem Edited.of_rebuilt {κ' : Type} {R : Change κ'} {k₁ k' : κ'} {q : Part}
    (hsame : ∀ {k p ps k'}, R k p ps k' → k' = k) (h : Rebuilt R k₁ p q k')
    (hR : ∀ c ∈ p.children, ∀ {cs}, R k₁ c cs k₁ → ∃ c', cs = [c'] ∧ Edited enter edit (enter k p) c c')
    (hedit : edit k p q p') : Edited enter edit k p p' := edited_iff.2 ⟨q, h.steady hsame hR, hedit⟩

theorem Chunks.forall₂ {S : Part → Part → Prop} {k k' : Unit} {ps ps' : List Part}
    (h : Chunks (Childwise S) k ps ps' k') : List.Forall₂ S ps ps' := by
  induction h with
  | nil => exact .nil
  | cons hp _ ih =>
    obtain ⟨p', rfl, hp⟩ := hp
    exact .cons hp ih

/-- An edit that keeps the children leaves a part as it is if and only if it does so everywhere in it. -/
theorem Edited.eq_iff {edit : κ → Part → Part} (hedit : ∀ k q, (edit k q).children = q.children)
    (h : Edited enter (fun k _ q p' => p' = edit k q) k p p') :
    p' = p ↔ Everywhere enter (fun k q => edit k q = q) k p := by
  induction p using Part.induction generalizing k p' with
  | step p ih =>
    obtain ⟨q, hq, rfl⟩ := edited_iff.1 h
    rw [everywhere_iff]
    have hstays (hcs : ∀ c ∈ p.children, Everywhere enter (fun k q => edit k q = q) (enter k p) c) : q = p := by
      refine hq.eq_of_children fun c hc cs hchild => ?_
      obtain ⟨c', rfl, hc'⟩ := hchild
      rw [(ih c hc hc').2 (hcs c hc)]
    constructor
    · intro heq
      have hchildren : q.children = p.children := (hedit k q).symm.trans (congrArg Part.children heq)
      have hself := List.forall₂_same.1 (hchildren ▸ hq.children.forall₂)
      have hcs := fun c hc => (ih c hc (hself c hc)).1 rfl
      cases hstays hcs
      exact ⟨heq, hcs⟩
    · rintro ⟨hhead, hcs⟩
      rw [hstays hcs, hhead]

theorem Edited.list_eq_iff {edit : κ → Part → Part} (hedit : ∀ k q, (edit k q).children = q.children)
    {ps ps' : List Part} (h : List.Forall₂ (Edited enter (fun k _ q p' => p' = edit k q) k) ps ps') :
    ps' = ps ↔ ∀ p ∈ ps, Everywhere enter (fun k q => edit k q = q) k p := by
  induction h with
  | nil => simp
  | cons hp _ ih => rw [List.cons.injEq, hp.eq_iff hedit, ih, List.forall_mem_cons]

end Edited

end ClassScript
