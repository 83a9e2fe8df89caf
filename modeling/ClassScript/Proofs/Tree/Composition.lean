import ClassScript.Proofs.Tree.Traversal
import Mathlib.Logic.Relation
/-!
# One change behind another

A part is rebuilt from its own children if these may stay (`Rebuilt.refl`). A part that is rebuilt twice is rebuilt
once, from children that are changed twice (`Rebuilt.trans`).
-/

namespace ClassScript

theorem Rebuilt.self (p : Part) : Rebuilt Stays () p p () := by
  have hrests := default_sound (m := Id)
  cases p with
  | expr e => exact (hrests.exprThrough e ()).elim fun _ h => h.2.2
  | stmt s => exact (hrests.stmtThrough s ()).elim fun _ h => h.2.2
  | closure c => exact (hrests.closureThrough c ()).elim fun _ h => h.2.2
  | param p => exact (hrests.paramThrough p ()).elim fun _ h => h.2.2
  | clause c => exact (hrests.clauseThrough c ()).elim fun _ h => h.2.2
  | method m => exact (hrests.methodThrough m ()).elim fun _ h => h.2.2
  | cls c => exact (hrests.classThrough c ()).elim fun _ h => h.2.2
  | iface i => exact (hrests.interfaceThrough i ()).elim fun _ h => h.2.2

theorem Rebuilt.refl {S : Part → Part → Prop} {p : Part} (h : ∀ c ∈ p.children, S c c) :
    Rebuilt (Childwise S) () p p () := (Rebuilt.self p).steady (fun _ => rfl) fun c hc _ hcs => ⟨c, hcs, h c hc⟩

theorem Held.refl {α : Type} {S : Unit → α → α → Unit → Prop} (hS : ∀ a, S () a a ()) (a : Option α) :
    Held S () a a () := by
  cases a with
  | none => exact .none
  | some a => exact .some (hS a)

section Composition

open Relation (Comp)

theorem Each.comp {α β γ : Type} {S : Unit → α → β → Unit → Prop} {T : Unit → β → γ → Unit → Prop}
    {U : Unit → α → γ → Unit → Prop} (hU : ∀ {a b c}, S () a b () → T () b c () → U () a c ()) {k k' : Unit}
    {as : List α} {bs : List β} {cs : List γ} (h : Each S k as bs k') (h' : Each T k bs cs k') : Each U k as cs k' := by
  induction h generalizing cs with
  | nil =>
    cases h'
    exact .nil
  | cons ha _ ih =>
    cases h' with
    | cons hb hbs => exact .cons (hU ha hb) (ih hbs)

theorem Held.comp {α β γ : Type} {S : Unit → α → β → Unit → Prop} {T : Unit → β → γ → Unit → Prop}
    {U : Unit → α → γ → Unit → Prop} (hU : ∀ {a b c}, S () a b () → T () b c () → U () a c ()) {k k' : Unit}
    {a : Option α} {b : Option β} {c : Option γ} (h : Held S k a b k') (h' : Held T k b c k') : Held U k a c k' := by
  cases h with
  | none =>
    cases h'
    exact .none
  | some ha =>
    cases h' with
    | some hb => exact .some (hU ha hb)

variable {S T : Part → Part → Prop} {k k' : Unit}

theorem childwise_iff {p p' : Part} : Childwise S () p [p'] () ↔ S p p' :=
  ⟨fun ⟨_, heq, h⟩ => List.singleton_injective heq ▸ h, fun h => ⟨p', rfl, h⟩⟩

theorem Childwise.comp {p q r : Part} (h : Childwise S () p [q] ()) (h' : Childwise T () q [r] ()) :
    Childwise (Comp S T) () p [r] () := childwise_iff.2 ⟨q, childwise_iff.1 h, childwise_iff.1 h'⟩

namespace Change

theorem MemberName.comp {n n' n'' : ClassScript.MemberName} (h : MemberName (Childwise S) k n n' k')
    (h' : MemberName (Childwise T) k n' n'' k') : MemberName (Childwise (Comp S T)) k n n'' k' := by
  cases h with
  | ident =>
    cases h'
    exact .ident
  | dynamic he =>
    cases h' with
    | dynamic he' => exact .dynamic (he.comp he')

theorem ClassRef.comp {c c' c'' : ClassScript.ClassRef} (h : ClassRef (Childwise S) k c c' k')
    (h' : ClassRef (Childwise T) k c' c'' k') : ClassRef (Childwise (Comp S T)) k c c'' k' := by
  cases h with
  | fixed hc =>
    cases h' with
    | fixed => exact .fixed hc
    | dynamic => cases hc
  | dynamic he =>
    cases h' with
    | fixed hc => cases hc
    | dynamic he' => exact .dynamic (he.comp he')

theorem Callee.comp {c c' c'' : ClassScript.Callee} (h : Callee (Childwise S) k c c' k')
    (h' : Callee (Childwise T) k c' c'' k') : Callee (Childwise (Comp S T)) k c c'' k' := by
  cases h with
  | named =>
    cases h'
    exact .named
  | dynamic he =>
    cases h' with
    | dynamic he' => exact .dynamic (he.comp he')

theorem Arg.comp {a a' a'' : ClassScript.Arg} (h : Arg (Childwise S) k a a' k')
    (h' : Arg (Childwise T) k a' a'' k') : Arg (Childwise (Comp S T)) k a a'' k' := by
  obtain ⟨hv⟩ := h
  obtain ⟨hv'⟩ := h'
  exact .mk (hv.comp hv')

theorem Item.comp {i i' i'' : ArrayItem} (h : Item (Childwise S) k i i' k')
    (h' : Item (Childwise T) k i' i'' k') : Item (Childwise (Comp S T)) k i i'' k' := by
  obtain ⟨hkey, hv⟩ := h
  obtain ⟨hkey', hv'⟩ := h'
  exact .mk (hkey.comp Childwise.comp hkey') (hv.comp hv')

/-- Statements stay as many as they are. -/
theorem stmts_iff {ss ss' : List Stmt} : Stmts (Childwise S) k ss ss' k' ↔
    List.Forall₂ (fun s s' => S (.stmt s) (.stmt s')) ss ss' := by
  constructor
  · intro h
    induction h with
    | nil => exact .nil
    | cons hs _ ih =>
      obtain ⟨_, heq, hs⟩ := hs
      obtain ⟨_, rfl, rfl⟩ := List.map_eq_singleton_iff.1 heq
      exact .cons hs ih
  · intro h
    induction h with
    | nil => exact .nil
    | @cons s s' ss ss' hs _ ih =>
      have hone : Childwise S () (.stmt s) (Part.stmts [s']) () := childwise_iff.2 hs
      exact .cons hone ih

theorem Stmts.comp {ss ss' ss'' : List Stmt} (h : Stmts (Childwise S) k ss ss' k')
    (h' : Stmts (Childwise T) k ss' ss'' k') : Stmts (Childwise (Comp S T)) k ss ss'' k' := by
  rw [stmts_iff] at *
  induction h generalizing ss'' with
  | nil =>
    cases h'
    exact .nil
  | cons hs _ ih =>
    cases h' with
    | cons hs' hss' => exact .cons ⟨_, hs, hs'⟩ (ih hss')

theorem ElseIf.comp {b b' b'' : ClassScript.ElseIf} (h : ElseIf (Childwise S) k b b' k')
    (h' : ElseIf (Childwise T) k b' b'' k') : ElseIf (Childwise (Comp S T)) k b b'' k' := by
  obtain ⟨hc, hb⟩ := h
  obtain ⟨hc', hb'⟩ := h'
  exact .mk (hc.comp hc') (hb.comp hb')

theorem Member.comp {m m' m'' : ClassScript.Member} (h : Member (Childwise S) k m m' k')
    (h' : Member (Childwise T) k m' m'' k') : Member (Childwise (Comp S T)) k m m'' k' := by
  cases h with
  | property hd =>
    cases h' with
    | property hd' => exact .property (hd.comp Childwise.comp hd')
  | const hv =>
    cases h' with
    | const hv' => exact .const (hv.comp hv')
  | method hm =>
    cases h' with
    | method hm' => exact .method (hm.comp hm')
  | traitUse =>
    cases h'
    exact .traitUse

theorem InterfaceMember.comp {m m' m'' : ClassScript.Member} (h : InterfaceMember (Childwise S) k m m' k')
    (h' : InterfaceMember (Childwise T) k m' m'' k') : InterfaceMember (Childwise (Comp S T)) k m m'' k' := by
  cases h with
  | property =>
    cases h' with
    | property => exact .property
    | other hm _ => cases hm
  | other hm h =>
    cases h' with
    | property => cases h; cases hm
    | other _ h' => exact .other hm (h.comp h')

end Change

theorem Rebuilt.children_eq_nil {p q : Part} (h : Rebuilt (Childwise S) k p q k') :
    q.children = [] ↔ p.children = [] := by
  have hlength := h.children.forall₂.length_eq
  rw [← List.length_eq_zero_iff, ← List.length_eq_zero_iff, hlength]

open Change in
/-- Where something is below, a part is rebuilt by the same rule both times. -/
theorem Rebuilt.comp {p q r : Part} (h : Rebuilt (Childwise S) k p q k') (h' : Rebuilt (Childwise T) k q r k')
    (hq : q.children ≠ []) : Rebuilt (Childwise (Comp S T)) k p r k' := by
  cases h with
  | leaf h => exact absurd h hq
  | dynamicVariable h =>
    cases h' with
    | leaf hnil => exact absurd hnil hq
    | dynamicVariable h' => exact .dynamicVariable (h.comp h')
  | array h =>
    cases h' with
    | leaf hnil => exact absurd hnil hq
    | array h' => exact .array (h.comp Item.comp h')
  | index ht hd =>
    cases h' with
    | leaf hnil => exact absurd hnil hq
    | index ht' hd' => exact .index (ht.comp ht') (hd.comp Childwise.comp hd')
  | property ho hn =>
    cases h' with
    | leaf hnil => exact absurd hnil hq
    | property ho' hn' => exact .property (ho.comp ho') (hn.comp hn')
  | methodCall ho hn has =>
    cases h' with
    | leaf hnil => exact absurd hnil hq
    | methodCall ho' hn' has' => exact .methodCall (ho.comp ho') (hn.comp hn') (has.comp Arg.comp has')
  | staticCall hc hn has =>
    cases h' with
    | leaf hnil => exact absurd hnil hq
    | staticCall hc' hn' has' => exact .staticCall (hc.comp hc') (hn.comp hn') (has.comp Arg.comp has')
  | staticProperty h =>
    cases h' with
    | leaf hnil => exact absurd hnil hq
    | staticProperty h' => exact .staticProperty (h.comp h')
  | classConst h =>
    cases h' with
    | leaf hnil => exact absurd hnil hq
    | classConst h' => exact .classConst (h.comp h')
  | call hc has =>
    cases h' with
    | leaf hnil => exact absurd hnil hq
    | call hc' has' => exact .call (hc.comp hc') (has.comp Arg.comp has')
  | new hc has =>
    cases h' with
    | leaf hnil => exact absurd hnil hq
    | new hc' has' => exact .new (hc.comp hc') (has.comp Arg.comp has')
  | assign ht hv =>
    cases h' with
    | leaf hnil => exact absurd hnil hq
    | assign ht' hv' => exact .assign (ht.comp ht') (hv.comp hv')
  | assignOp ht hv =>
    cases h' with
    | leaf hnil => exact absurd hnil hq
    | assignOp ht' hv' => exact .assignOp (ht.comp ht') (hv.comp hv')
  | step h =>
    cases h' with
    | leaf hnil => exact absurd hnil hq
    | step h' => exact .step (h.comp h')
  | binary hl hr =>
    cases h' with
    | leaf hnil => exact absurd hnil hq
    | binary hl' hr' => exact .binary (hl.comp hl') (hr.comp hr')
  | unary h =>
    cases h' with
    | leaf hnil => exact absurd hnil hq
    | unary h' => exact .unary (h.comp h')
  | ternary hc ht ho =>
    cases h' with
    | leaf hnil => exact absurd hnil hq
    | ternary hc' ht' ho' => exact .ternary (hc.comp hc') (ht.comp Childwise.comp ht') (ho.comp ho')
  | instanceOf hv hc =>
    cases h' with
    | leaf hnil => exact absurd hnil hq
    | instanceOf hv' hc' => exact .instanceOf (hv.comp hv') (hc.comp hc')
  | cast h =>
    cases h' with
    | leaf hnil => exact absurd hnil hq
    | cast h' => exact .cast (h.comp h')
  | isset h =>
    cases h' with
    | leaf hnil => exact absurd hnil hq
    | isset h' => exact .isset (h.comp Childwise.comp h')
  | function h =>
    cases h' with
    | leaf hnil => exact absurd hnil hq
    | function h' => exact .function (h.comp h')
  | expression h =>
    cases h' with
    | leaf hnil => exact absurd hnil hq
    | expression h' => exact .expression (h.comp h')
  | echo h =>
    cases h' with
    | leaf hnil => exact absurd hnil hq
    | echo h' => exact .echo (h.comp Childwise.comp h')
  | ret h =>
    cases h' with
    | leaf hnil => exact absurd hnil hq
    | ret h' => exact .ret (h.comp Childwise.comp h')
  | branch hc ht hei ho =>
    cases h' with
    | leaf hnil => exact absurd hnil hq
    | branch hc' ht' hei' ho' =>
      exact .branch (hc.comp hc') (ht.comp ht') (hei.comp ElseIf.comp hei') (ho.comp Stmts.comp ho')
  | whileLoop hc hb =>
    cases h' with
    | leaf hnil => exact absurd hnil hq
    | whileLoop hc' hb' => exact .whileLoop (hc.comp hc') (hb.comp hb')
  | forLoop hi hc hs hb =>
    cases h' with
    | leaf hnil => exact absurd hnil hq
    | forLoop hi' hc' hs' hb' =>
      exact .forLoop (hi.comp Childwise.comp hi') (hc.comp Childwise.comp hc') (hs.comp Childwise.comp hs')
        (hb.comp hb')
  | foreach hs hk hv hb =>
    cases h' with
    | leaf hnil => exact absurd hnil hq
    | foreach hs' hk' hv' hb' => exact .foreach (hs.comp hs') (hk.comp Childwise.comp hk') (hv.comp hv') (hb.comp hb')
  | throwValue h =>
    cases h' with
    | leaf hnil => exact absurd hnil hq
    | throwValue h' => exact .throwValue (h.comp h')
  | tryCatch hb hcs hf =>
    cases h' with
    | leaf hnil => exact absurd hnil hq
    | tryCatch hb' hcs' hf' => exact .tryCatch (hb.comp hb') (hcs.comp Childwise.comp hcs') (hf.comp Stmts.comp hf')
  | block h =>
    cases h' with
    | leaf hnil => exact absurd hnil hq
    | block h' => exact .block (h.comp h')
  | nsBlock h =>
    cases h' with
    | leaf hnil => exact absurd hnil hq
    | nsBlock h' => exact .nsBlock (h.comp h')
  | classDecl h =>
    cases h' with
    | leaf hnil => exact absurd hnil hq
    | classDecl h' => exact .classDecl (h.comp h')
  | interfaceDecl h =>
    cases h' with
    | leaf hnil => exact absurd hnil hq
    | interfaceDecl h' => exact .interfaceDecl (h.comp h')
  | closure hps hb =>
    cases h' with
    | leaf hnil => exact absurd hnil hq
    | closure hps' hb' => exact .closure (hps.comp Childwise.comp hps') (hb.comp hb')
  | param h =>
    cases h' with
    | leaf hnil => exact absurd hnil hq
    | param h' => exact .param (h.comp Childwise.comp h')
  | clause h =>
    cases h' with
    | leaf hnil => exact absurd hnil hq
    | clause h' => exact .clause (h.comp h')
  | method hps hb =>
    cases h' with
    | leaf hnil => exact absurd hnil hq
    | method hps' hb' => exact .method (hps.comp Childwise.comp hps') (hb.comp Stmts.comp hb')
  | cls h =>
    cases h' with
    | leaf hnil => exact absurd hnil hq
    | cls h' => exact .cls (h.comp Member.comp h')
  | iface h =>
    cases h' with
    | leaf hnil => exact absurd hnil hq
    | iface h' => exact .iface (h.comp InterfaceMember.comp h')

/-- What is rebuilt twice is rebuilt once, from children that are changed twice. -/
theorem Rebuilt.trans {p q r : Part} (h : Rebuilt (Childwise S) () p q ()) (h' : Rebuilt (Childwise T) () q r ()) :
    Rebuilt (Childwise (Comp S T)) () p r () := by
  by_cases hq : q.children = []
  · have hp := h.children_eq_nil.1 hq
    obtain rfl := h'.eq_of_children fun c hc => absurd (hq ▸ hc) List.not_mem_nil
    obtain rfl := h.eq_of_children fun c hc => absurd (hp ▸ hc) List.not_mem_nil
    exact .leaf hp
  · exact h.comp h' hq

end Composition

end ClassScript
