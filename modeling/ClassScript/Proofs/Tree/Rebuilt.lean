import ClassScript.Tree.Part
/-!
# Rebuilt parts

What a pass does is said by a relation between a part and the parts it becomes. The relation also
tells what is known before the part and behind it, so that one part hands on what it knows to the
next. `Rebuilt R p p'` says that `p'` is `p` with its children changed by `R`, in source order.

`Rebuilt.children` forgets where each child stands. `Rebuilt.bare` forgets the children and keeps
the rest: what a part says by itself is the same before and behind.
-/

namespace ClassScript

/-- What becomes of a part, from what is known before it to what is known behind it. Only a
statement becomes anything but one part of its own kind. -/
abbrev Change (κ : Type) := κ → Part → List Part → κ → Prop

/-- One after the other becomes one after the other. -/
inductive Each {κ α β : Type} (S : κ → α → β → κ → Prop) : κ → List α → List β → κ → Prop
  | nil {k} : Each S k [] [] k
  | cons {k k₁ k' a b as bs} : S k a b k₁ → Each S k₁ as bs k' → Each S k (a :: as) (b :: bs) k'

/-- What is there stays there, changed. -/
inductive Held {κ α β : Type} (S : κ → α → β → κ → Prop) : κ → Option α → Option β → κ → Prop
  | none {k} : Held S k none none k
  | some {k k' a b} : S k a b k' → Held S k (some a) (some b) k'

namespace Change

variable {κ : Type} (R : Change κ)

def expr (k : κ) (e e' : Expr) (k' : κ) : Prop := R k (.expr e) [.expr e'] k'

def param (k : κ) (p p' : Param) (k' : κ) : Prop := R k (.param p) [.param p'] k'

def clause (k : κ) (c c' : Catch) (k' : κ) : Prop := R k (.clause c) [.clause c'] k'

def closure (k : κ) (c c' : Closure) (k' : κ) : Prop := R k (.closure c) [.closure c'] k'

def method (k : κ) (m m' : Method) (k' : κ) : Prop := R k (.method m) [.method m'] k'

def cls (k : κ) (c c' : Class) (k' : κ) : Prop := R k (.cls c) [.cls c'] k'

def iface (k : κ) (i i' : Interface) (k' : κ) : Prop := R k (.iface i) [.iface i'] k'

inductive MemberName : κ → ClassScript.MemberName → ClassScript.MemberName → κ → Prop
  | ident {k n} : MemberName k (.ident n) (.ident n) k
  | dynamic {k k' e e'} : R.expr k e e' k' → MemberName k (.dynamic e) (.dynamic e') k'

inductive ClassRef : κ → ClassScript.ClassRef → ClassScript.ClassRef → κ → Prop
  | fixed {k c} : c.exprs = [] → ClassRef k c c k
  | dynamic {k k' e e'} : R.expr k e e' k' → ClassRef k (.dynamic e) (.dynamic e') k'

inductive Callee : κ → ClassScript.Callee → ClassScript.Callee → κ → Prop
  | named {k n} : Callee k (.named n) (.named n) k
  | dynamic {k k' e e'} : R.expr k e e' k' → Callee k (.dynamic e) (.dynamic e') k'

inductive Arg : κ → ClassScript.Arg → ClassScript.Arg → κ → Prop
  | mk {k k' v v' u} : R.expr k v v' k' → Arg k ⟨v, u⟩ ⟨v', u⟩ k'

inductive Item : κ → ArrayItem → ArrayItem → κ → Prop
  | mk {k k₁ k' key key' v v' r u} : Held R.expr k key key' k₁ → R.expr k₁ v v' k' →
      Item k ⟨key, v, r, u⟩ ⟨key', v', r, u⟩ k'

/-- What statements become stands in their order, without gaps. -/
inductive Stmts : κ → List Stmt → List Stmt → κ → Prop
  | nil {k} : Stmts k [] [] k
  | cons {k k₁ k' s ts ss ss'} : R k (.stmt s) (Part.stmts ts) k₁ → Stmts k₁ ss ss' k' →
      Stmts k (s :: ss) (ts ++ ss') k'

inductive ElseIf : κ → ClassScript.ElseIf → ClassScript.ElseIf → κ → Prop
  | mk {k k₁ k' c c' b b'} : R.expr k c c' k₁ → R.Stmts k₁ b b' k' → ElseIf k ⟨c, b⟩ ⟨c', b'⟩ k'

inductive Member : κ → ClassScript.Member → ClassScript.Member → κ → Prop
  | property {k k' n d d' mo re p} : Held R.expr k d d' k' →
      Member k (.property ⟨n, d, mo, re, p⟩) (.property ⟨n, d', mo, re, p⟩) k'
  | const {k k' n v v' mo re p} : R.expr k v v' k' →
      Member k (.const ⟨n, v, mo, re, p⟩) (.const ⟨n, v', mo, re, p⟩) k'
  | method {k k' d d'} : R.method k d d' k' → Member k (.method d) (.method d') k'
  | traitUse {k ns} : Member k (.traitUse ns) (.traitUse ns) k

/-- A property among the members of an interface stays as it is. -/
inductive InterfaceMember : κ → ClassScript.Member → ClassScript.Member → κ → Prop
  | property {k d} : InterfaceMember k (.property d) (.property d) k
  | other {k k' m m'} : m.property? = none → R.Member k m m' k' → InterfaceMember k m m' k'

end Change

open Change in
/-- The second part is the first one with its children changed by `R`. -/
inductive Rebuilt {κ : Type} (R : Change κ) : κ → Part → Part → κ → Prop
  | leaf {k p} : p.children = [] → Rebuilt R k p p k
  | dynamicVariable {k k' p e e'} : R.expr k e e' k' →
      Rebuilt R k (.expr (.dynamicVariable p e)) (.expr (.dynamicVariable p e')) k'
  | array {k k' p is is'} : Each R.Item k is is' k' →
      Rebuilt R k (.expr (.array p is)) (.expr (.array p is')) k'
  | index {k k₁ k' p t t' d d'} : R.expr k t t' k₁ → Held R.expr k₁ d d' k' →
      Rebuilt R k (.expr (.index p t d)) (.expr (.index p t' d')) k'
  | property {k k₁ k' p o o' n n' b} : R.expr k o o' k₁ → R.MemberName k₁ n n' k' →
      Rebuilt R k (.expr (.property p o n b)) (.expr (.property p o' n' b)) k'
  | methodCall {k k₁ k₂ k' p o o' n n' as as' b} : R.expr k o o' k₁ → R.MemberName k₁ n n' k₂ →
      Each R.Arg k₂ as as' k' →
      Rebuilt R k (.expr (.methodCall p o n as b)) (.expr (.methodCall p o' n' as' b)) k'
  | staticCall {k k₁ k₂ k' p c c' n n' as as'} : R.ClassRef k c c' k₁ → R.MemberName k₁ n n' k₂ →
      Each R.Arg k₂ as as' k' →
      Rebuilt R k (.expr (.staticCall p c n as)) (.expr (.staticCall p c' n' as')) k'
  | staticProperty {k k' p c c' n} : R.ClassRef k c c' k' →
      Rebuilt R k (.expr (.staticProperty p c n)) (.expr (.staticProperty p c' n)) k'
  | classConst {k k' p c c' n} : R.ClassRef k c c' k' →
      Rebuilt R k (.expr (.classConst p c n)) (.expr (.classConst p c' n)) k'
  | call {k k₁ k' p c c' as as'} : R.Callee k c c' k₁ → Each R.Arg k₁ as as' k' →
      Rebuilt R k (.expr (.call p c as)) (.expr (.call p c' as')) k'
  | new {k k₁ k' p c c' as as'} : R.ClassRef k c c' k₁ → Each R.Arg k₁ as as' k' →
      Rebuilt R k (.expr (.new p c as)) (.expr (.new p c' as')) k'
  | assign {k k₁ k' p t t' v v' d} : R.expr k t t' k₁ → R.expr k₁ v v' k' →
      Rebuilt R k (.expr (.assign p t v d)) (.expr (.assign p t' v' d)) k'
  | assignOp {k k₁ k' p op t t' v v'} : R.expr k t t' k₁ → R.expr k₁ v v' k' →
      Rebuilt R k (.expr (.assignOp p op t v)) (.expr (.assignOp p op t' v')) k'
  | step {k k' p op t t'} : R.expr k t t' k' →
      Rebuilt R k (.expr (.step p op t)) (.expr (.step p op t')) k'
  | binary {k k₁ k' p op l l' r r'} : R.expr k l l' k₁ → R.expr k₁ r r' k' →
      Rebuilt R k (.expr (.binary p op l r)) (.expr (.binary p op l' r')) k'
  | unary {k k' p op e e'} : R.expr k e e' k' →
      Rebuilt R k (.expr (.unary p op e)) (.expr (.unary p op e')) k'
  | ternary {k k₁ k₂ k' p c c' t t' o o'} : R.expr k c c' k₁ → Held R.expr k₁ t t' k₂ →
      R.expr k₂ o o' k' →
      Rebuilt R k (.expr (.ternary p c t o)) (.expr (.ternary p c' t' o')) k'
  | instanceOf {k k₁ k' p v v' c c'} : R.expr k v v' k₁ → R.ClassRef k₁ c c' k' →
      Rebuilt R k (.expr (.instanceOf p v c)) (.expr (.instanceOf p v' c')) k'
  | cast {k k' p t e e'} : R.expr k e e' k' →
      Rebuilt R k (.expr (.cast p t e)) (.expr (.cast p t e')) k'
  | isset {k k' p es es'} : Each R.expr k es es' k' →
      Rebuilt R k (.expr (.isset p es)) (.expr (.isset p es')) k'
  | function {k k' p c c'} : R.closure k c c' k' →
      Rebuilt R k (.expr (.closure p c)) (.expr (.closure p c')) k'
  | expression {k k' e e'} : R.expr k e e' k' →
      Rebuilt R k (.stmt (.expression e)) (.stmt (.expression e')) k'
  | echo {k k' p es es'} : Each R.expr k es es' k' →
      Rebuilt R k (.stmt (.echo p es)) (.stmt (.echo p es')) k'
  | ret {k k' p v v'} : Held R.expr k v v' k' → Rebuilt R k (.stmt (.ret p v)) (.stmt (.ret p v')) k'
  | branch {k k₁ k₂ k₃ k' p c c' t t' ei ei' o o'} : R.expr k c c' k₁ → R.Stmts k₁ t t' k₂ →
      Each R.ElseIf k₂ ei ei' k₃ → Held R.Stmts k₃ o o' k' →
      Rebuilt R k (.stmt (.branch p c t ei o)) (.stmt (.branch p c' t' ei' o')) k'
  | whileLoop {k k₁ k' p c c' b b'} : R.expr k c c' k₁ → R.Stmts k₁ b b' k' →
      Rebuilt R k (.stmt (.whileLoop p c b)) (.stmt (.whileLoop p c' b')) k'
  | forLoop {k k₁ k₂ k₃ k' p i i' c c' s s' b b'} : Each R.expr k i i' k₁ → Each R.expr k₁ c c' k₂ →
      Each R.expr k₂ s s' k₃ → R.Stmts k₃ b b' k' →
      Rebuilt R k (.stmt (.forLoop p i c s b)) (.stmt (.forLoop p i' c' s' b')) k'
  | foreach {k k₁ k₂ k₃ k' p s s' key key' v v' r b b'} : R.expr k s s' k₁ →
      Held R.expr k₁ key key' k₂ → R.expr k₂ v v' k₃ → R.Stmts k₃ b b' k' →
      Rebuilt R k (.stmt (.foreach p s key v r b)) (.stmt (.foreach p s' key' v' r b')) k'
  | throwValue {k k' p v v'} : R.expr k v v' k' →
      Rebuilt R k (.stmt (.throwValue p v)) (.stmt (.throwValue p v')) k'
  | tryCatch {k k₁ k₂ k' p b b' cs cs' f f'} : R.Stmts k b b' k₁ → Each R.clause k₁ cs cs' k₂ →
      Held R.Stmts k₂ f f' k' →
      Rebuilt R k (.stmt (.tryCatch p b cs f)) (.stmt (.tryCatch p b' cs' f')) k'
  | block {k k' p b b'} : R.Stmts k b b' k' → Rebuilt R k (.stmt (.block p b)) (.stmt (.block p b')) k'
  | nsBlock {k k' p n b b' br} : R.Stmts k b b' k' →
      Rebuilt R k (.stmt (.nsBlock p n b br)) (.stmt (.nsBlock p n b' br)) k'
  | classDecl {k k' c c'} : R.cls k c c' k' →
      Rebuilt R k (.stmt (.classDecl c)) (.stmt (.classDecl c')) k'
  | interfaceDecl {k k' i i'} : R.iface k i i' k' →
      Rebuilt R k (.stmt (.interfaceDecl i)) (.stmt (.interfaceDecl i')) k'
  | closure {k k₁ k' ps ps' cs b b' r s i} : Each R.param k ps ps' k₁ → R.Stmts k₁ b b' k' →
      Rebuilt R k (.closure ⟨ps, cs, b, r, s, i⟩) (.closure ⟨ps', cs, b', r, s, i⟩) k'
  | param {k k' n t d d' r v pr pos} : Held R.expr k d d' k' →
      Rebuilt R k (.param ⟨n, t, d, r, v, pr, pos⟩) (.param ⟨n, t, d', r, v, pr, pos⟩) k'
  | clause {k k' t v b b' p} : R.Stmts k b b' k' →
      Rebuilt R k (.clause ⟨t, v, b, p⟩) (.clause ⟨t, v, b', p⟩) k'
  | method {k k₁ k' n ps ps' b b' r mo re pos} : Each R.param k ps ps' k₁ →
      Held R.Stmts k₁ b b' k' →
      Rebuilt R k (.method ⟨n, ps, b, r, mo, re, pos⟩) (.method ⟨n, ps', b', r, mo, re, pos⟩) k'
  | cls {k k' n pa is ms ms' a f p q ap} : Each R.Member k ms ms' k' →
      Rebuilt R k (.cls ⟨n, pa, is, ms, a, f, p, q, ap⟩) (.cls ⟨n, pa, is, ms', a, f, p, q, ap⟩) k'
  | iface {k k' n ps ms ms' p q} : Each R.InterfaceMember k ms ms' k' →
      Rebuilt R k (.iface ⟨n, ps, ms, p, q⟩) (.iface ⟨n, ps, ms', p, q⟩) k'

/-! ## Children -/

theorem Part.expr_mem_children {e c : Expr} (h : c ∈ e.subexprs) : .expr c ∈ (Part.expr e).children :=
  mem_ofExpr.2 (.inl ⟨c, h, rfl⟩)

/-- Parts become parts, each any number of them. -/
inductive Chunks {κ : Type} (R : Change κ) : κ → List Part → List Part → κ → Prop
  | nil {k} : Chunks R k [] [] k
  | cons {k k₁ k' p ps qs qs'} : R k p ps k₁ → Chunks R k₁ qs qs' k' →
      Chunks R k (p :: qs) (ps ++ qs') k'

namespace Chunks

variable {κ : Type} {R : Change κ} {k k₁ k' : κ} {ps ps' qs qs' : List Part}

theorem mono {R' : Change κ} (hR : ∀ {k p ps k'}, R k p ps k' → R' k p ps k') (h : Chunks R k ps ps' k') :
    Chunks R' k ps ps' k' := by
  induction h with
  | nil => exact .nil
  | cons h _ ih => exact .cons (hR h) ih

theorem single {p p' : Part} (h : R k p [p'] k') : Chunks R k [p] [p'] k' := .cons h .nil

theorem append (h : Chunks R k ps ps' k₁) (h' : Chunks R k₁ qs qs' k') :
    Chunks R k (ps ++ qs) (ps' ++ qs') k' := by
  induction h with
  | nil => exact h'
  | cons hp _ ih =>
    rw [List.cons_append, List.append_assoc]
    exact .cons hp (ih h')

theorem same (hR : ∀ {k p ps k'}, R k p ps k' → k' = k) (h : Chunks R k ps ps' k') : k' = k := by
  induction h with
  | nil => rfl
  | cons hr _ ih => exact ih.trans (hR hr)

/-- If nothing is learned on the way, all parts are changed from where the first one is. -/
theorem mem_of_same (hR : ∀ {k p ps k'}, R k p ps k' → k' = k) (h : Chunks R k ps ps' k') {p' : Part}
    (hp : p' ∈ ps') : ∃ p ∈ ps, ∃ cs, R k p cs k ∧ p' ∈ cs := by
  induction h with
  | nil => cases hp
  | cons hr _ ih =>
    cases hR hr
    rcases List.mem_append.1 hp with hp | hp
    · exact ⟨_, List.mem_cons_self, _, hr, hp⟩
    · obtain ⟨p, hm, h⟩ := ih hp
      exact ⟨p, List.mem_cons_of_mem _ hm, h⟩

theorem exists_of_same (hR : ∀ {k p ps k'}, R k p ps k' → k' = k) (h : Chunks R k ps ps' k') {p : Part}
    (hp : p ∈ ps) : ∃ cs, R k p cs k := by
  induction h with
  | nil => cases hp
  | cons hr _ ih =>
    cases hR hr
    cases hp with
    | head => exact ⟨_, hr⟩
    | tail _ hp => exact ih hp

end Chunks

section Children

variable {κ : Type} {R : Change κ} {k k' : κ}

/-- A list is changed as its entries are, if its parts are those of the entries in their order. -/
theorem Each.chunks {α : Type} {S : κ → α → α → κ → Prop} {f : α → List Part}
    {g : List α → List Part} (hnil : g [] = []) (hcons : ∀ a as, g (a :: as) = f a ++ g as)
    (hf : ∀ {k a b k'}, S k a b k' → Chunks R k (f a) (f b) k') {as bs : List α}
    (h : Each S k as bs k') : Chunks R k (g as) (g bs) k' := by
  induction h with
  | nil => rw [hnil]; exact .nil
  | cons ha _ ih =>
    rw [hcons, hcons]
    exact (hf ha).append ih

theorem Each.exprs {es es' : List Expr} (h : Each R.expr k es es' k') :
    Chunks R k (Part.exprs es) (Part.exprs es') k' :=
  h.chunks (f := fun e => [.expr e]) rfl (fun _ _ => rfl) Chunks.single

theorem Held.exprs {e e' : Option Expr} (h : Held R.expr k e e' k') :
    Chunks R k (Part.exprs e.toList) (Part.exprs e'.toList) k' := by
  cases h with
  | none => exact .nil
  | some h => exact .single h

theorem Held.stmts {b b' : Option (List Stmt)} (h : Held R.Stmts k b b' k')
    (hs : ∀ {k ss ss' k'}, R.Stmts k ss ss' k' → Chunks R k (Part.stmts ss) (Part.stmts ss') k') :
    Chunks R k (Part.stmts (b.getD [])) (Part.stmts (b'.getD [])) k' := by
  cases h with
  | none => exact .nil
  | some h => exact hs h

namespace Change

theorem MemberName.chunks {n n' : ClassScript.MemberName} (h : R.MemberName k n n' k') :
    Chunks R k (Part.ofMemberName n) (Part.ofMemberName n') k' := by
  cases h with
  | ident => exact .nil
  | dynamic h => exact .single h

theorem ClassRef.chunks {c c' : ClassScript.ClassRef} (h : R.ClassRef k c c' k') :
    Chunks R k (Part.ofClassRef c) (Part.ofClassRef c') k' := by
  cases h with
  | fixed h => rw [Part.ofClassRef_eq, h]; exact .nil
  | dynamic h => exact .single h

theorem Callee.chunks {c c' : ClassScript.Callee} (h : R.Callee k c c' k') :
    Chunks R k (Part.ofCallee c) (Part.ofCallee c') k' := by
  cases h with
  | named => exact .nil
  | dynamic h => exact .single h

theorem Stmts.chunks {ss ss' : List Stmt} (h : R.Stmts k ss ss' k') :
    Chunks R k (Part.stmts ss) (Part.stmts ss') k' := by
  induction h with
  | nil => exact .nil
  | cons h _ ih =>
    simp only [Part.stmts, List.map_append, List.map_cons]
    exact .cons h ih

theorem args {as as' : List ClassScript.Arg} (h : Each R.Arg k as as' k') :
    Chunks R k (Part.ofArgs as) (Part.ofArgs as') k' :=
  h.chunks (f := fun a => [.expr a.value]) rfl (fun _ _ => rfl) fun | .mk h => .single h

theorem items {is is' : List ArrayItem} (h : Each R.Item k is is' k') :
    Chunks R k (Part.ofItems is) (Part.ofItems is') k' :=
  h.chunks (f := fun i => Part.exprs i.key.toList ++ [Part.expr i.value]) rfl
    (fun _ _ => by simp [Part.ofItems]) fun | .mk hk hv => hk.exprs.append (.single hv)

theorem elseIfs {bs bs' : List ClassScript.ElseIf} (h : Each R.ElseIf k bs bs' k') :
    Chunks R k (Part.elseIfs bs) (Part.elseIfs bs') k' :=
  h.chunks (f := fun b => .expr b.test :: Part.stmts b.body) rfl
    (fun _ _ => by simp [Part.elseIfs]) fun | .mk hc hb => (Chunks.single hc).append hb.chunks

theorem params {ps ps' : List Param} (h : Each R.param k ps ps' k') :
    Chunks R k (ps.map .param) (ps'.map .param) k' :=
  h.chunks (f := fun p => [.param p]) (g := List.map .param) rfl (fun _ _ => rfl) Chunks.single

theorem clauses {cs cs' : List Catch} (h : Each R.clause k cs cs' k') :
    Chunks R k (cs.map .clause) (cs'.map .clause) k' :=
  h.chunks (f := fun c => [.clause c]) (g := List.map .clause) rfl (fun _ _ => rfl) Chunks.single

theorem members {ms ms' : List ClassScript.Member} (h : Each R.Member k ms ms' k') :
    Chunks R k (Part.members ms) (Part.members ms') k' := by
  induction h with
  | nil => exact .nil
  | cons h _ ih =>
    cases h with
    | property h => exact h.exprs.append ih
    | const h => exact .cons h ih
    | method h => exact .cons h ih
    | traitUse => exact ih

theorem interfaceMembers {ms ms' : List ClassScript.Member} (h : Each R.InterfaceMember k ms ms' k') :
    Chunks R k (Part.interfaceMembers ms) (Part.interfaceMembers ms') k' := by
  induction h with
  | nil => exact .nil
  | cons h _ ih =>
    cases h with
    | property => exact ih
    | other hm h =>
      cases h with
      | property => cases hm
      | const h => exact .cons h ih
      | method h => exact .cons h ih
      | traitUse => exact ih

end Change

namespace Rebuilt

open Change

/-- The children become children, whatever place among them they have. -/
theorem children {p p' : Part} (h : Rebuilt R k p p' k') : Chunks R k p.children p'.children k' := by
  cases h with
  | leaf h => rw [h]; exact .nil
  | array h => exact items h
  | isset h | echo h => exact h.exprs
  | ret h | param h => exact h.exprs
  | index ht hd => exact .cons ht hd.exprs
  | property ho hn => exact .cons ho hn.chunks
  | methodCall ho hn has => exact .cons ho (hn.chunks.append (args has))
  | staticCall hc hn has => exact (hc.chunks.append hn.chunks).append (args has)
  | staticProperty h | classConst h => exact h.chunks
  | call hc has => exact hc.chunks.append (args has)
  | new hc has => exact hc.chunks.append (args has)
  | assign ht hv | assignOp ht hv | binary ht hv => exact .cons ht (.single hv)
  | ternary hc ht ho => exact .cons hc (ht.exprs.append (.single ho))
  | instanceOf hv hc => exact .cons hv hc.chunks
  | dynamicVariable h | step h | unary h | cast h | function h | expression h | throwValue h
  | classDecl h | interfaceDecl h => exact .single h
  | branch hc ht hei ho =>
    exact .cons hc ((ht.chunks.append (elseIfs hei)).append (ho.stmts Stmts.chunks))
  | whileLoop hc hb => exact .cons hc hb.chunks
  | forLoop hi hc hs hb => exact ((hi.exprs.append hc.exprs).append hs.exprs).append hb.chunks
  | foreach hs hk hv hb => exact .cons hs (hk.exprs.append (.cons hv hb.chunks))
  | tryCatch hb hcs hf => exact (hb.chunks.append (clauses hcs)).append (hf.stmts Stmts.chunks)
  | block h | nsBlock h | clause h => exact h.chunks
  | closure hps hb => exact (params hps).append hb.chunks
  | method hps hb => exact (params hps).append (hb.stmts Stmts.chunks)
  | cls h => exact members h
  | iface h => exact interfaceMembers h

end Rebuilt

end Children

/-! ## What a part says by itself -/

/-- A variable, or nothing in place of any other expression. -/
def Expr.stub : Expr → Expr
  | .variable p n s => .variable p n s
  | _ => .null .unknown

/-- A parameter without its type and with nothing in place of its default. -/
def Param.stub (p : Param) : Param :=
  { p with type := none, default := p.default.map fun _ => .null .unknown }

def Catch.stub (c : Catch) : Catch := { c with body := [] }

/-- What a method is declared as, without its parameters. -/
def Method.stub (m : Method) : Method := { m with params := [], body := none }

/-- What a part shows of itself to the part above it. -/
def Part.stub : Part → Part
  | .expr e => .expr e.stub
  | .param p => .param p.stub
  | .clause c => .clause c.stub
  | .method m => .method m.stub
  | _ => .stmt (.nop .unknown)

def MemberName.bare : MemberName → MemberName
  | .ident n => .ident n
  | .dynamic _ => .dynamic (.null .unknown)

def ClassRef.bare : ClassRef → ClassRef
  | .dynamic _ => .dynamic (.null .unknown)
  | c => c

def Callee.bare : Callee → Callee
  | .named n => .named n
  | .dynamic _ => .dynamic (.null .unknown)

def bareArgs (args : List Arg) : List Arg := args.map fun a => ⟨.null .unknown, a.unpack⟩

/-- An expression without those below it. A variable stays where it is assigned or where a member
of it is meant. -/
def Expr.bare : Expr → Expr
  | .variable p n s => .variable p n s
  | .dynamicVariable p _ => .dynamicVariable p (.null .unknown)
  | .int p v => .int p v
  | .float p v => .float p v
  | .string p v => .string p v
  | .bool p v => .bool p v
  | .null p => .null p
  | .array p _ => .array p []
  | .index p _ _ => .index p (.null .unknown) none
  | .property p o n b => .property p o.stub n.bare b
  | .methodCall p o n as b => .methodCall p o.stub n.bare (bareArgs as) b
  | .staticCall p c n as => .staticCall p c.bare n.bare (bareArgs as)
  | .staticProperty p c n => .staticProperty p c.bare n
  | .classConst p c n => .classConst p c.bare n
  | .const p n => .const p n
  | .call p c as => .call p c.bare (bareArgs as)
  | .new p c as => .new p c.bare (bareArgs as)
  | .anonymousClass p => .anonymousClass p
  | .assign p t _ d => .assign p t.stub (.null .unknown) d
  | .assignOp p op t _ => .assignOp p op t.stub (.null .unknown)
  | .step p op t => .step p op t.stub
  | .binary p op _ _ => .binary p op (.null .unknown) (.null .unknown)
  | .unary p op _ => .unary p op (.null .unknown)
  | .ternary p _ _ _ => .ternary p (.null .unknown) none (.null .unknown)
  | .instanceOf p _ c => .instanceOf p (.null .unknown) c.bare
  | .cast p t _ => .cast p t (.null .unknown)
  | .isset p _ => .isset p []
  | .closure p _ => .closure p ⟨[], [], [], false, false, false⟩

/-- A statement without what stands below it. -/
def Stmt.bare : Stmt → Stmt
  | .expression _ => .expression (.null .unknown)
  | .echo p _ => .echo p []
  | .ret p _ => .ret p none
  | .branch p _ _ _ _ => .branch p (.null .unknown) [] [] none
  | .whileLoop p _ _ => .whileLoop p (.null .unknown) []
  | .forLoop p _ _ _ _ => .forLoop p [] [] [] []
  | .foreach p _ _ _ r _ => .foreach p (.null .unknown) none (.null .unknown) r []
  | .breakLoop p => .breakLoop p
  | .continueLoop p => .continueLoop p
  | .throwValue p _ => .throwValue p (.null .unknown)
  | .tryCatch p _ cs _ => .tryCatch p [] (cs.map Catch.stub) none
  | .block p _ => .block p []
  | .nsBlock p n _ b => .nsBlock p n [] b
  | .imports p is => .imports p is
  | .classDecl _ => .classDecl ⟨"", none, [], [], false, false, .unknown, none, none⟩
  | .interfaceDecl _ => .interfaceDecl ⟨"", [], [], .unknown, none⟩
  | .functionDecl p n => .functionDecl p n
  | .nop p => .nop p

/-- What a member is declared as. -/
def Member.bare : Member → Member
  | .property d => .property { d with default := d.default.map fun _ => .null .unknown }
  | .const d => .const { d with value := .null .unknown }
  | .method m => .method m.stub
  | .traitUse ns => .traitUse ns

/-- A part without what stands below it. -/
def Part.bare : Part → Part
  | .expr e => .expr e.bare
  | .stmt s => .stmt s.bare
  | .closure c => .closure { c with params := c.params.map Param.stub, body := [] }
  | .param p => .param { p with default := p.default.map fun _ => .null .unknown }
  | .clause c => .clause c.stub
  | .method m =>
    .method { m with params := m.params.map Param.stub, body := m.body.map fun _ => [] }
  | .cls c => .cls { c with members := c.members.map Member.bare }
  | .iface i => .iface { i with members := i.members.map Member.bare }

/-- Whether a change leaves alone what each part shows to the part above it. -/
def Change.KeepsStubs {κ : Type} (R : Change κ) : Prop :=
  ∀ {k c c' k'}, R k c [c'] k' → c'.stub = c.stub

section Bare

variable {κ : Type} {R : Change κ} {k k' : κ}

namespace Change

theorem KeepsStubs.expr (hR : R.KeepsStubs) {e e' : Expr} (h : R.expr k e e' k') :
    e'.stub = e.stub := Part.expr.inj (hR h)

theorem KeepsStubs.params (hR : R.KeepsStubs) {ps ps' : List Param} (h : Each R.param k ps ps' k') :
    ps'.map Param.stub = ps.map Param.stub := by
  induction h with
  | nil => rfl
  | cons h _ ih => rw [List.map_cons, List.map_cons, ih, Part.param.inj (hR h)]

theorem KeepsStubs.clauses (hR : R.KeepsStubs) {cs cs' : List Catch} (h : Each R.clause k cs cs' k') :
    cs'.map Catch.stub = cs.map Catch.stub := by
  induction h with
  | nil => rfl
  | cons h _ ih => rw [List.map_cons, List.map_cons, ih, Part.clause.inj (hR h)]

theorem KeepsStubs.member (hR : R.KeepsStubs) {m m' : ClassScript.Member} (h : R.Member k m m' k') :
    m'.bare = m.bare := by
  cases h with
  | property h => cases h <;> rfl
  | method h => rw [Member.bare, Member.bare, Part.method.inj (hR h)]
  | _ => rfl

theorem KeepsStubs.members (hR : R.KeepsStubs) {ms ms' : List ClassScript.Member}
    (h : Each R.Member k ms ms' k') : ms'.map Member.bare = ms.map Member.bare := by
  induction h with
  | nil => rfl
  | cons h _ ih => rw [List.map_cons, List.map_cons, ih, hR.member h]

theorem KeepsStubs.interfaceMembers (hR : R.KeepsStubs) {ms ms' : List ClassScript.Member}
    (h : Each R.InterfaceMember k ms ms' k') : ms'.map Member.bare = ms.map Member.bare := by
  induction h with
  | nil => rfl
  | cons h _ ih =>
    rw [List.map_cons, List.map_cons, ih]
    cases h with
    | property => rfl
    | other _ h => rw [hR.member h]

theorem MemberName.bare_eq {n n' : ClassScript.MemberName} (h : R.MemberName k n n' k') :
    n'.bare = n.bare := by cases h <;> rfl

theorem ClassRef.bare_eq {c c' : ClassScript.ClassRef} (h : R.ClassRef k c c' k') :
    c'.bare = c.bare := by cases h <;> rfl

theorem Callee.bare_eq {c c' : ClassScript.Callee} (h : R.Callee k c c' k') : c'.bare = c.bare := by
  cases h <;> rfl

theorem bareArgs_eq {as as' : List ClassScript.Arg} (h : Each R.Arg k as as' k') :
    bareArgs as' = bareArgs as := by
  induction h with
  | nil => rfl
  | cons h _ ih =>
    cases h
    rw [bareArgs, bareArgs, List.map_cons, List.map_cons] at *
    rw [ih]

end Change

/-- A rebuilt part says what it said before. -/
theorem Rebuilt.bare_eq (hR : R.KeepsStubs) {p p' : Part} (h : Rebuilt R k p p' k') :
    p'.bare = p.bare := by
  cases h with
  | property ho hn => simp only [Part.bare, Expr.bare, hR.expr ho, hn.bare_eq]
  | methodCall ho hn has =>
    simp only [Part.bare, Expr.bare, hR.expr ho, hn.bare_eq, Change.bareArgs_eq has]
  | staticCall hc hn has =>
    simp only [Part.bare, Expr.bare, hc.bare_eq, hn.bare_eq, Change.bareArgs_eq has]
  | staticProperty h | classConst h => simp only [Part.bare, Expr.bare, h.bare_eq]
  | call hc has => simp only [Part.bare, Expr.bare, hc.bare_eq, Change.bareArgs_eq has]
  | new hc has => simp only [Part.bare, Expr.bare, hc.bare_eq, Change.bareArgs_eq has]
  | assign ht _ | assignOp ht _ | step ht => simp only [Part.bare, Expr.bare, hR.expr ht]
  | instanceOf _ hc => simp only [Part.bare, Expr.bare, hc.bare_eq]
  | tryCatch _ hcs _ => simp only [Part.bare, Stmt.bare, hR.clauses hcs]
  | closure hps _ => simp only [Part.bare, hR.params hps]
  | param h => cases h <;> rfl
  | method hps hb => cases hb <;> simp only [Part.bare, hR.params hps, Option.map]
  | cls h => simp only [Part.bare, hR.members h]
  | iface h => simp only [Part.bare, hR.interfaceMembers h]
  | _ => rfl

end Bare

/-- A part shows nothing that it does not say by itself. -/
theorem Part.stub_bare (p : Part) : p.bare.stub = p.stub := by
  cases p with
  | expr e => cases e <;> rfl
  | param p =>
    obtain ⟨n, t, d, r, v, pr, pos⟩ := p
    cases d <;> rfl
  | _ => rfl

end ClassScript
