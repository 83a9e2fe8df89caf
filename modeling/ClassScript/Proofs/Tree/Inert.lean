import ClassScript.Proofs.Tree.Throughout
/-!
# Passes that leave a tree alone

A pass is inert on the parts that fulfil a condition if it leaves each of them as it is, given that all below
stays as it is. If the condition holds everywhere in a tree, the whole pass leaves the tree alone and does not
fail (`Inert.stmts`).
-/

namespace ClassScript

/-! ## Parts below a part -/

namespace Part

theorem mem_all_self (p : Part) : p ∈ p.all := by
  rw [all_eq]
  exact .head _

theorem all_subset_of_mem_children {p c : Part} (hc : c ∈ p.children) : c.all ⊆ p.all := by
  intro q hq
  rw [all_eq]
  exact .tail _ (List.mem_flatMap.2 ⟨c, hc, hq⟩)

theorem all_subset_of_mem {p q : Part} (h : q ∈ p.all) : q.all ⊆ p.all := by
  induction p using Part.induction with
  | step p ih =>
    rw [all_eq] at h
    cases h with
    | head => exact fun _ => id
    | tail _ h =>
      obtain ⟨c, hc, hq⟩ := List.mem_flatMap.1 h
      exact fun _ hx => all_subset_of_mem_children hc (ih c hc hq hx)

end Part

/-! ## Everywhere in a part -/

/-- The condition holds of the part and of all below it, each in its own context. -/
def Everywhere {κ : Type} (enter : κ → Part → κ) (P : κ → Part → Prop) (k : κ) (p : Part) : Prop :=
  ∀ x ∈ p.within enter k, P x.1 x.2

section Everywhere

variable {κ κ' : Type} {enter : κ → Part → κ} {enter' : κ' → Part → κ'} {P : κ → Part → Prop}
  {P' : κ' → Part → Prop} {k : κ} {k' : κ'} {p : Part}

theorem everywhere_iff : Everywhere enter P k p ↔
    P k p ∧ ∀ c ∈ p.children, Everywhere enter P (enter k p) c := by
  rw [Everywhere, Part.within_eq, List.forall_mem_cons]
  simp only [List.mem_flatMap, forall_exists_index, and_imp, Everywhere]
  exact and_congr_right fun _ => forall_comm.trans (forall_congr' fun _ => forall_comm)

theorem Everywhere.head (h : Everywhere enter P k p) : P k p := (everywhere_iff.1 h).1

theorem Everywhere.child (h : Everywhere enter P k p) {c : Part} (hc : c ∈ p.children) :
    Everywhere enter P (enter k p) c := (everywhere_iff.1 h).2 c hc

theorem Everywhere.subexpr {e c : Expr} (h : Everywhere enter P k (.expr e)) (hc : c ∈ e.subexprs) :
    Everywhere enter P (enter k (.expr e)) (.expr c) := h.child (Part.expr_mem_children hc)

/-- A condition that asks for less, in a context that stands in a relation to the first one. -/
theorem Everywhere.imp (S : κ → κ' → Prop) (henter : ∀ {k k' p}, S k k' → P k p → S (enter k p) (enter' k' p))
    (hP : ∀ {k k' p}, S k k' → P k p → P' k' p) (h : Everywhere enter P k p) (hS : S k k') :
    Everywhere enter' P' k' p := by
  induction p using Part.induction generalizing k k' with
  | step p ih =>
    exact everywhere_iff.2 ⟨hP hS h.head, fun c hc => ih c hc (h.child hc) (henter hS h.head)⟩

/-- Two conditions at once, each in its own context. -/
theorem Everywhere.both (h : Everywhere enter P k p) (h' : Everywhere enter' P' k' p) :
    Everywhere (fun x p => (enter x.1 p, enter' x.2 p)) (fun x p => P x.1 p ∧ P' x.2 p) (k, k') p := by
  induction p using Part.induction generalizing k k' with
  | step p ih => exact everywhere_iff.2 ⟨⟨h.head, h'.head⟩, fun c hc => ih c hc (h.child hc) (h'.child hc)⟩

theorem everywhere_of_all {Q : Part → Prop} (h : ∀ q ∈ p.all, Q q) : Everywhere enter (fun _ => Q) k p := by
  induction p using Part.induction generalizing k with
  | step p ih =>
    obtain ⟨hp, hcs⟩ := forall_mem_all_iff.1 h
    exact everywhere_iff.2 ⟨hp, fun c hc => ih c hc (hcs c hc)⟩

end Everywhere

/-! ## Values that stay -/

namespace Logic

variable {m : Type → Type} [Monad m] {κ α β : Type} (L : Logic m κ) {k : κ}

/-- Of an action that does not fail. -/
def succeeding (ε κ : Type) : Logic (Except ε) κ where
  Gives k act Q := ∃ a, act = .ok a ∧ Q a k
  weaken h hQ := h.imp fun _ ⟨ha, hP⟩ => ⟨ha, hQ _ _ hP⟩
  pure h := ⟨_, rfl, h⟩
  bind h hf := by
    obtain ⟨a, rfl, ha⟩ := h
    exact hf a _ ha
  map h hf := by
    obtain ⟨a, rfl, ha⟩ := h
    exact ⟨_, rfl, hf a _ ha⟩

/-- The action gives the value, and behind it is known what was known before it. -/
def Leaves (k : κ) (act : m α) (a : α) : Prop := L.Gives k act fun a' k' => a' = a ∧ k' = k

variable {L}

theorem Leaves.pure {a : α} : L.Leaves k (Pure.pure a) a := L.pure ⟨rfl, rfl⟩

theorem Leaves.of_eq {a a' : α} (h : a' = a) : L.Leaves k (Pure.pure a') a := L.pure ⟨h, rfl⟩

theorem Leaves.bind {act : m α} {f : α → m β} {a : α} {b : β} (h : L.Leaves k act a) (hf : L.Leaves k (f a) b) :
    L.Leaves k (act >>= f) b := by
  refine Logic.bind L h ?_
  rintro _ _ ⟨rfl, rfl⟩
  exact hf

/-- Behind an action whose value is put into another one. -/
theorem Leaves.into {act : m α} {f : α → β} {a : α} (h : L.Leaves k act a) :
    L.Leaves k (do return f (← act)) (f a) := h.bind .pure

theorem Leaves.single {act : m α} {a : α} (h : L.Leaves k act a) : L.Leaves k (do return [← act]) [a] := h.into

end Logic

/-! ## Inert passes -/

/-- The obligations of a pass that leaves alone whatever fulfils the condition everywhere. -/
structure Inert {m : Type → Type} [Monad m] {κ : Type} (L : Logic m κ) (pass : Pass m) (enter : κ → Part → κ)
    (P : κ → Part → Prop) : Prop where
  inOrder : ∀ {k e}, Everywhere enter P k (.expr e) → e.inOrder = true
  expr : ∀ {k e act}, Everywhere enter P k (.expr e) → L.Leaves (enter k (.expr e)) act e →
    L.Leaves k (pass.expr e act) e
  stmt : ∀ {k s act}, Everywhere enter P k (.stmt s) → L.Leaves (enter k (.stmt s)) act s →
    L.Leaves k (pass.stmt s act) [s]
  param : ∀ {k p act}, Everywhere enter P k (.param p) → L.Leaves (enter k (.param p)) act p →
    L.Leaves k (pass.param p act) p
  closure : ∀ {k c act}, Everywhere enter P k (.closure c) → L.Leaves (enter k (.closure c)) act c →
    L.Leaves k (pass.closure c act) c
  clause : ∀ {k c act}, Everywhere enter P k (.clause c) → L.Leaves (enter k (.clause c)) act c →
    L.Leaves k (pass.clause c act) c
  method : ∀ {k d act}, Everywhere enter P k (.method d) → L.Leaves (enter k (.method d)) act d →
    L.Leaves k (pass.method d act) d
  cls : ∀ {k c act}, Everywhere enter P k (.cls c) → L.Leaves (enter k (.cls c)) act c →
    L.Leaves k (pass.cls c act) c
  iface : ∀ {k i act}, Everywhere enter P k (.iface i) → L.Leaves (enter k (.iface i)) act i →
    L.Leaves k (pass.iface i act) i

set_option linter.unusedSectionVars false

namespace Inert

variable {m : Type → Type} [Monad m] {κ : Type} {L : Logic m κ} {pass : Pass m} {enter : κ → Part → κ}
  {P : κ → Part → Prop} (h : Inert L pass enter P)

include h

mutual

theorem exprThrough : (e : Expr) → (k : κ) → Everywhere enter P k (.expr e) → L.Leaves k (e.through pass) e
  | .variable .., _, he => h.expr he .pure
  | .int .., _, he => h.expr he .pure
  | .float .., _, he => h.expr he .pure
  | .string .., _, he => h.expr he .pure
  | .bool .., _, he => h.expr he .pure
  | .null _, _, he => h.expr he .pure
  | .const .., _, he => h.expr he .pure
  | .anonymousClass _, _, he => h.expr he .pure
  | .dynamicVariable _ e, _, he => h.expr he (.into (exprThrough e _ (he.subexpr (.head _))))
  | .array .., _, he => nomatch h.inOrder he
  | .index _ t d, _, he => h.expr he (.bind (exprThrough t _ (he.subexpr (.head _)))
    (.into (optionThrough d _ fun _ hc => he.subexpr (.tail _ hc))))
  | .property _ o n _, _, he => h.expr he (.bind (exprThrough o _ (he.subexpr (.head _)))
    (.into (memberNameThrough n _ fun _ hc => he.subexpr (.tail _ hc))))
  | .methodCall _ o n as _, _, he => h.expr he (.bind (exprThrough o _ (he.subexpr (.head _)))
    (.bind (memberNameThrough n _ fun _ hc => he.subexpr (.tail _ (List.mem_append_left _ hc)))
    (.into (argsThrough as _ fun _ hc => he.subexpr (.tail _ (List.mem_append_right _ hc))))))
  | .staticCall _ c n as, _, he => h.expr he
    (.bind (classRefThrough c _ fun _ hc =>
      he.subexpr (List.mem_append_left _ (List.mem_append_left _ hc)))
    (.bind (memberNameThrough n _ fun _ hc =>
      he.subexpr (List.mem_append_left _ (List.mem_append_right _ hc)))
    (.into (argsThrough as _ fun _ hc => he.subexpr (List.mem_append_right _ hc)))))
  | .staticProperty _ c _, _, he => h.expr he (.into (classRefThrough c _ fun _ hc => he.subexpr hc))
  | .classConst _ c _, _, he => h.expr he (.into (classRefThrough c _ fun _ hc => he.subexpr hc))
  | .call _ c as, _, he => h.expr he
    (.bind (calleeThrough c _ fun _ hc => he.subexpr (List.mem_append_left _ hc))
    (.into (argsThrough as _ fun _ hc => he.subexpr (List.mem_append_right _ hc))))
  | .new _ c as, _, he => h.expr he
    (.bind (classRefThrough c _ fun _ hc => he.subexpr (List.mem_append_left _ hc))
    (.into (argsThrough as _ fun _ hc => he.subexpr (List.mem_append_right _ hc))))
  | .assign p t v d, _, he => by
    have ht := exprThrough t _ (he.subexpr (.head _))
    have hv := exprThrough v _ (he.subexpr (.tail _ (.head _)))
    -- An assignment to an element is handed over in pieces, but it is not in order.
    cases t with
    | index => nomatch h.inOrder he
    | _ => exact h.expr he (.bind ht (.into hv))
  | .assignOp _ _ t v, _, he => h.expr he (.bind (exprThrough t _ (he.subexpr (.head _)))
    (.into (exprThrough v _ (he.subexpr (.tail _ (.head _))))))
  | .step _ _ t, _, he => h.expr he (.into (exprThrough t _ (he.subexpr (.head _))))
  | .binary _ _ l r, _, he => h.expr he (.bind (exprThrough l _ (he.subexpr (.head _)))
    (.into (exprThrough r _ (he.subexpr (.tail _ (.head _))))))
  | .unary _ _ e, _, he => h.expr he (.into (exprThrough e _ (he.subexpr (.head _))))
  | .ternary _ c t o, _, he => h.expr he (.bind (exprThrough c _ (he.subexpr (.head _)))
    (.bind (optionThrough t _ fun _ hc => he.subexpr (.tail _ (List.mem_append_left _ hc)))
    (.into (exprThrough o _ (he.subexpr (.tail _ (List.mem_append_right _ (.head _))))))))
  | .instanceOf _ v c, _, he => h.expr he (.bind (exprThrough v _ (he.subexpr (.head _)))
    (.into (classRefThrough c _ fun _ hc => he.subexpr (.tail _ hc))))
  | .cast _ _ e, _, he => h.expr he (.into (exprThrough e _ (he.subexpr (.head _))))
  | .isset _ es, _, he => h.expr he (.into (exprsThrough es _ fun _ hc => he.subexpr hc))
  | .closure _ c, _, he => h.expr he (.into (closureThrough c _ (he.child (.head _))))

theorem memberNameThrough : (n : MemberName) → (k : κ) → (∀ e ∈ n.exprs, Everywhere enter P k (.expr e)) →
    L.Leaves k (n.through pass) n
  | .ident _, _, _ => .pure
  | .dynamic e, k, he => .into (exprThrough e k (he e (.head _)))

theorem classRefThrough : (c : ClassRef) → (k : κ) → (∀ e ∈ c.exprs, Everywhere enter P k (.expr e)) →
    L.Leaves k (c.through pass) c
  | .named _, _, _ => .pure
  | .self, _, _ => .pure
  | .parent, _, _ => .pure
  | .static, _, _ => .pure
  | .dynamic e, k, he => .into (exprThrough e k (he e (.head _)))

theorem calleeThrough : (c : Callee) → (k : κ) → (∀ e ∈ c.exprs, Everywhere enter P k (.expr e)) →
    L.Leaves k (c.through pass) c
  | .named _, _, _ => .pure
  | .dynamic e, k, he => .into (exprThrough e k (he e (.head _)))

theorem argsThrough : (as : List Arg) → (k : κ) → (∀ e ∈ argExprs as, Everywhere enter P k (.expr e)) →
    L.Leaves k (ClassScript.argsThrough pass as) as
  | [], _, _ => .pure
  | ⟨v, _⟩ :: rest, k, has => .bind (exprThrough v k (has v (.head _)))
    (.into (argsThrough rest k fun e he => has e (.tail _ he)))

theorem optionThrough : (e : Option Expr) → (k : κ) → (∀ c ∈ e.toList, Everywhere enter P k (.expr c)) →
    L.Leaves k (ClassScript.optionThrough pass e) e
  | none, _, _ => .pure
  | some e, k, he => .into (exprThrough e k (he e (.head _)))

theorem exprsThrough : (es : List Expr) → (k : κ) → (∀ e ∈ es, Everywhere enter P k (.expr e)) →
    L.Leaves k (ClassScript.exprsThrough pass es) es
  | [], _, _ => .pure
  | e :: rest, k, hes => .bind (exprThrough e k (hes e (.head _)))
    (.into (exprsThrough rest k fun e he => hes e (.tail _ he)))

theorem paramThrough : (p : Param) → (k : κ) → Everywhere enter P k (.param p) → L.Leaves k (p.through pass) p
  | ⟨_, _, d, _, _, _, _⟩, _, hp => h.param hp
    (.into (optionThrough d _ fun _ hc => hp.child (List.mem_map_of_mem hc)))

theorem paramsThrough : (ps : List Param) → (k : κ) → (∀ p ∈ ps, Everywhere enter P k (.param p)) →
    L.Leaves k (ClassScript.paramsThrough pass ps) ps
  | [], _, _ => .pure
  | p :: rest, k, hps => .bind (paramThrough p k (hps p (.head _)))
    (.into (paramsThrough rest k fun p hp => hps p (.tail _ hp)))

theorem closureThrough : (c : Closure) → (k : κ) → Everywhere enter P k (.closure c) →
    L.Leaves k (c.through pass) c
  | ⟨ps, _, b, _, _, _⟩, _, hc => h.closure hc
    (.bind (paramsThrough ps _ fun _ hp => hc.child (List.mem_append_left _ (List.mem_map_of_mem hp)))
    (.into (stmts b _ fun _ hs => hc.child (List.mem_append_right _ (List.mem_map_of_mem hs)))))

/-- Statements stay as they are. -/
theorem stmts : (ss : List Stmt) → (k : κ) → (∀ s ∈ ss, Everywhere enter P k (.stmt s)) →
    L.Leaves k (stmtsThrough pass ss) ss
  | [], _, _ => .pure
  | s :: rest, k, hss => .bind (stmtThrough s k (hss s (.head _)))
    (.into (f := (s :: ·)) (stmts rest k fun s hs => hss s (.tail _ hs)))

theorem bodyThrough : (b : Option (List Stmt)) → (k : κ) → (∀ s ∈ b.getD [], Everywhere enter P k (.stmt s)) →
    L.Leaves k (ClassScript.bodyThrough pass b) b
  | none, _, _ => .pure
  | some b, k, hb => .into (stmts b k hb)

theorem elseIfsThrough : (bs : List ElseIf) → (k : κ) → (∀ c ∈ Part.elseIfs bs, Everywhere enter P k c) →
    L.Leaves k (ClassScript.elseIfsThrough pass bs) bs
  | [], _, _ => .pure
  | ⟨c, b⟩ :: rest, k, hbs => .bind (exprThrough c k (hbs _ (.head _)))
    (.bind (stmts b k fun _ hs => hbs _ (.tail _ (List.mem_append_left _ (List.mem_map_of_mem hs))))
    (.into (elseIfsThrough rest k fun c hc => hbs c (.tail _ (List.mem_append_right _ hc)))))

theorem clauseThrough : (c : Catch) → (k : κ) → Everywhere enter P k (.clause c) → L.Leaves k (c.through pass) c
  | ⟨_, _, b, _⟩, _, hc => h.clause hc (.into (stmts b _ fun _ hs => hc.child (List.mem_map_of_mem hs)))

theorem clausesThrough : (cs : List Catch) → (k : κ) → (∀ c ∈ cs, Everywhere enter P k (.clause c)) →
    L.Leaves k (catchesThrough pass cs) cs
  | [], _, _ => .pure
  | c :: rest, k, hcs => .bind (clauseThrough c k (hcs c (.head _)))
    (.into (clausesThrough rest k fun c hc => hcs c (.tail _ hc)))

theorem stmtThrough : (s : Stmt) → (k : κ) → Everywhere enter P k (.stmt s) → L.Leaves k (s.through pass) [s]
  | .expression e, _, hs => h.stmt hs (.into (exprThrough e _ (hs.child (.head _))))
  | .echo _ es, _, hs => h.stmt hs (.into (exprsThrough es _ fun _ he => hs.child (List.mem_map_of_mem he)))
  | .ret _ v, _, hs => h.stmt hs (.into (optionThrough v _ fun _ he => hs.child (List.mem_map_of_mem he)))
  | .branch _ c t ei o, _, hs => by
    have hcs := (everywhere_iff.1 hs).2
    obtain ⟨hc, hcs⟩ := List.forall_mem_cons.1 hcs
    obtain ⟨hcs, ho⟩ := List.forall_mem_append.1 hcs
    obtain ⟨ht, hei⟩ := List.forall_mem_append.1 hcs
    exact h.stmt hs (.bind (exprThrough c _ hc) (.bind (stmts t _ (List.forall_mem_map.1 ht))
      (.bind (elseIfsThrough ei _ hei) (.into (bodyThrough o _ (List.forall_mem_map.1 ho))))))
  | .whileLoop _ c b, _, hs => h.stmt hs (.bind (exprThrough c _ (hs.child (.head _)))
    (.into (stmts b _ fun _ hb => hs.child (.tail _ (List.mem_map_of_mem hb)))))
  | .forLoop _ i c s b, _, hs => by
    have hcs := (everywhere_iff.1 hs).2
    obtain ⟨hcs, hb⟩ := List.forall_mem_append.1 hcs
    obtain ⟨hcs, hstep⟩ := List.forall_mem_append.1 hcs
    obtain ⟨hi, hc⟩ := List.forall_mem_append.1 hcs
    exact h.stmt hs (.bind (exprsThrough i _ (List.forall_mem_map.1 hi))
      (.bind (exprsThrough c _ (List.forall_mem_map.1 hc)) (.bind (exprsThrough s _ (List.forall_mem_map.1 hstep))
      (.into (stmts b _ (List.forall_mem_map.1 hb))))))
  | .foreach _ s key v _ b, _, hs => by
    have hcs := (everywhere_iff.1 hs).2
    obtain ⟨hsubject, hcs⟩ := List.forall_mem_cons.1 hcs
    obtain ⟨hkey, hcs⟩ := List.forall_mem_append.1 hcs
    obtain ⟨hv, hb⟩ := List.forall_mem_cons.1 hcs
    exact h.stmt hs (.bind (exprThrough s _ hsubject) (.bind (optionThrough key _ (List.forall_mem_map.1 hkey))
      (.bind (exprThrough v _ hv) (.into (stmts b _ (List.forall_mem_map.1 hb))))))
  | .breakLoop _, _, hs => h.stmt hs .pure
  | .continueLoop _, _, hs => h.stmt hs .pure
  | .throwValue _ v, _, hs => h.stmt hs (.into (exprThrough v _ (hs.child (.head _))))
  | .tryCatch _ b cs f, _, hs => by
    have hparts := (everywhere_iff.1 hs).2
    obtain ⟨hparts, hf⟩ := List.forall_mem_append.1 hparts
    obtain ⟨hb, hcs⟩ := List.forall_mem_append.1 hparts
    exact h.stmt hs (.bind (stmts b _ (List.forall_mem_map.1 hb))
      (.bind (clausesThrough cs _ (List.forall_mem_map.1 hcs)) (.into (bodyThrough f _ (List.forall_mem_map.1 hf)))))
  | .block _ b, _, hs => h.stmt hs (.into (stmts b _ fun _ hb => hs.child (List.mem_map_of_mem hb)))
  | .nsBlock _ _ b _, _, hs => h.stmt hs (.into (f := (Stmt.nsBlock _ _ · _))
    (stmts b _ fun _ hb => hs.child (List.mem_map_of_mem hb)))
  | .imports .., _, hs => h.stmt hs .pure
  | .classDecl c, _, hs => h.stmt hs (.into (classThrough c _ (hs.child (.head _))))
  | .interfaceDecl i, _, hs => h.stmt hs (.into (interfaceThrough i _ (hs.child (.head _))))
  | .functionDecl .., _, hs => h.stmt hs .pure
  | .nop _, _, hs => h.stmt hs .pure

theorem methodThrough : (d : Method) → (k : κ) → Everywhere enter P k (.method d) → L.Leaves k (d.through pass) d
  | ⟨_, ps, b, _, _, _, _⟩, _, hd => h.method hd
    (.bind (paramsThrough ps _ fun _ hp => hd.child (List.mem_append_left _ (List.mem_map_of_mem hp)))
    (.into (bodyThrough b _ fun _ hs => hd.child (List.mem_append_right _ (List.mem_map_of_mem hs)))))

theorem membersThrough : (ms : List Member) → (k : κ) → (∀ c ∈ Part.members ms, Everywhere enter P k c) →
    L.Leaves k (ClassScript.membersThrough pass ms) ms
  | [], _, _ => .pure
  | .property ⟨_, d, _, _, _⟩ :: rest, k, hms => by
    obtain ⟨hd, hrest⟩ := List.forall_mem_append.1 hms
    exact .bind (optionThrough d k (List.forall_mem_map.1 hd)) (.into (membersThrough rest k hrest))
  | .const ⟨_, v, _, _, _⟩ :: rest, k, hms => .bind (exprThrough v k (hms _ (.head _)))
    (.into (membersThrough rest k fun c hc => hms c (.tail _ hc)))
  | .method d :: rest, k, hms => .bind (methodThrough d k (hms _ (.head _)))
    (.into (membersThrough rest k fun c hc => hms c (.tail _ hc)))
  | .traitUse _ :: rest, k, hms => .into (membersThrough rest k hms)

theorem classThrough : (c : Class) → (k : κ) → Everywhere enter P k (.cls c) → L.Leaves k (c.through pass) c
  | ⟨_, _, _, ms, _, _, _, _, _⟩, _, hc => h.cls hc (.into (membersThrough ms _ fun _ hm => hc.child hm))

theorem interfaceMembersThrough : (ms : List Member) → (k : κ) →
    (∀ c ∈ Part.interfaceMembers ms, Everywhere enter P k c) →
    L.Leaves k (ClassScript.interfaceMembersThrough pass ms) ms
  | [], _, _ => .pure
  | .const ⟨_, v, _, _, _⟩ :: rest, k, hms => .bind (exprThrough v k (hms _ (.head _)))
    (.into (interfaceMembersThrough rest k fun c hc => hms c (.tail _ hc)))
  | .method d :: rest, k, hms => .bind (methodThrough d k (hms _ (.head _)))
    (.into (interfaceMembersThrough rest k fun c hc => hms c (.tail _ hc)))
  | .property _ :: rest, k, hms => .into (interfaceMembersThrough rest k hms)
  | .traitUse _ :: rest, k, hms => .into (interfaceMembersThrough rest k hms)

theorem interfaceThrough : (i : Interface) → (k : κ) → Everywhere enter P k (.iface i) →
    L.Leaves k (i.through pass) i
  | ⟨_, _, ms, _, _⟩, _, hi => h.iface hi (.into (interfaceMembersThrough ms _ fun _ hm => hi.child hm))

end

end Inert

end ClassScript
