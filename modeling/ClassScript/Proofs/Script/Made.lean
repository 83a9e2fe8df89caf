import ClassScript.Proofs.Tree.Through
import ClassScript.Script.Build
/-!
# Which nodes are made

For each constructor, when it makes a node and which.
-/

namespace ClassScript.Script

variable {name symbol : String} {n m o t v l r c : Node} {ns : List Node} {value : Option Node}

/-! ## Checks -/

theorem ok_eq_ok {α : Type} {a b : α} : (Pure.pure a : Built α) = .ok b ↔ b = a :=
  ⟨fun h => (Except.ok.inj h).symm, fun h => congrArg _ h.symm⟩

/-- A check before the rest. -/
theorem guard_eq_ok {α : Type} {p : Prop} [Decidable p] {f : Fault} {rest : Unit → Built α} {a : α} :
    (if p then rest () else MonadExcept.throw f >>= rest) = .ok a ↔ p ∧ rest () = .ok a := by
  split
  · next hp => simp [hp]
  · next hp => exact ⟨nofun, fun h => absurd h.1 hp⟩

/-- A refusal before the rest. -/
theorem refuse_eq_ok {α : Type} {p : Prop} [Decidable p] {f : Fault} {rest : Unit → Built α} {a : α} :
    (if p then MonadExcept.throw f >>= rest else rest ()) = .ok a ↔ ¬p ∧ rest () = .ok a := by
  split
  · next hp => exact ⟨nofun, fun h => absurd hp h.1⟩
  · next hp => simp [hp]

theorem needExpression_eq_ok {role : String} {u : Unit} :
    needExpression role n = .ok u ↔ n.isStatement = false := by
  unfold needExpression
  cases n.isStatement <;> simp

theorem need_bind {role : String} {rest : Unit → Built Node} :
    (needExpression role n >>= rest) = .ok m ↔ n.isStatement = false ∧ rest () = .ok m := by
  rw [bind_eq_ok]
  simp only [needExpression_eq_ok]
  exact ⟨fun ⟨_, h⟩ => h, fun h => ⟨(), h⟩⟩

theorem needAll_bind {role : String} {rest : Unit → Built Node} :
    (ns.forM (needExpression role) >>= rest) = .ok m ↔
      (∀ n ∈ ns, n.isStatement = false) ∧ rest () = .ok m := by
  induction ns with
  | nil => exact ⟨fun h => ⟨nofun, h⟩, And.right⟩
  | cons n ns ih =>
    show ((needExpression role n >>= fun _ => ns.forM (needExpression role)) >>= rest) = _ ↔ _
    rw [bind_assoc, need_bind, ih, List.forall_mem_cons, and_assoc]

theorem needOption_bind {role : String} {rest : Unit → Built Node} :
    (value.forM (needExpression role) >>= rest) = .ok m ↔
      (∀ n ∈ value, n.isStatement = false) ∧ rest () = .ok m := by
  cases value with
  | none => exact ⟨fun h => ⟨nofun, h⟩, And.right⟩
  | some n => exact need_bind.trans (and_congr_left fun _ => by simp)

/-! ## Expressions -/

theorem ident_eq_ok : ident name = .ok n ↔ isIdentifierName name = true ∧ n = .identifier name := by
  unfold ident
  cases isIdentifierName name <;> simp [eq_comm]

theorem assign_eq_ok : assign t v = .ok n ↔
    t.isAssignable = true ∧ v.isStatement = false ∧ n = .assign t v :=
  guard_eq_ok.trans (and_congr_right fun _ => need_bind.trans (and_congr_right fun _ => ok_eq_ok))

theorem declare_eq_ok : declare name value = .ok n ↔
    isIdentifierName name = true ∧ (∀ v ∈ value, v.isStatement = false) ∧ n = .declare name value :=
  guard_eq_ok.trans (and_congr_right fun _ => needOption_bind.trans (and_congr_right fun _ => ok_eq_ok))

theorem binary_eq_ok : binary symbol l r = .ok n ↔ ∃ op, BinaryOperator.ofSymbol? symbol = some op ∧
    l.isStatement = false ∧ r.isStatement = false ∧ n = .binary op l r := by
  unfold binary
  split
  · next h => simp [h]
  · next op h =>
    refine need_bind.trans ((and_congr_right fun _ => need_bind.trans
      (and_congr_right fun _ => ok_eq_ok)).trans ?_)
    simp [h]

theorem unary_eq_ok : unary symbol v = .ok n ↔
    ∃ op, UnaryOperator.ofSymbol? symbol = some op ∧ v.isStatement = false ∧ n = .unary op v := by
  unfold unary
  split
  · next h => simp [h]
  · next op h =>
    refine need_bind.trans ((and_congr_right fun _ => ok_eq_ok).trans ?_)
    simp [h]

theorem ternary_eq_ok : ternary c t v = .ok n ↔ c.isStatement = false ∧ t.isStatement = false ∧
    v.isStatement = false ∧ n = .ternary c t v :=
  need_bind.trans (and_congr_right fun _ => need_bind.trans (and_congr_right fun _ =>
    need_bind.trans (and_congr_right fun _ => ok_eq_ok)))

theorem foldlM_property {ks : List Node} : ks.foldlM (fun object key => do
      needExpression "property" key
      return Node.property object key) o = .ok n ↔
    (∀ k ∈ ks, k.isStatement = false) ∧ n = ks.foldl Node.property o := by
  induction ks generalizing o with
  | nil => exact ok_eq_ok.trans ⟨fun h => ⟨nofun, h⟩, And.right⟩
  | cons k ks ih =>
    rw [List.foldlM_cons, bind_assoc, need_bind, pure_bind, ih, List.forall_mem_cons, and_assoc,
      List.foldl_cons]

theorem propertyOf_eq_ok : propertyOf o ns = .ok n ↔ ns ≠ [] ∧ o.isStatement = false ∧
    (∀ k ∈ ns, k.isStatement = false) ∧ n = ns.foldl Node.property o := by
  unfold propertyOf
  refine refuse_eq_ok.trans (and_congr ?_ (need_bind.trans (and_congr_right fun _ => foldlM_property)))
  simp

/-- The key of an access by name. -/
def keyNode (name : String) : Node := if isIdentifierName name then .identifier name else .string name

theorem isStatement_keyNode (name : String) : (keyNode name).isStatement = false := by
  unfold keyNode
  split <;> rfl

theorem member_eq_ok : member o name = .ok n ↔ o.isStatement = false ∧ n = .property o (keyNode name) := by
  refine propertyOf_eq_ok.trans ?_
  simp only [ne_eq, List.cons_ne_nil, not_false_eq_true, true_and, List.forall_mem_singleton,
    List.foldl_cons, List.foldl_nil]
  exact and_congr_right fun _ => and_iff_right (isStatement_keyNode name)

theorem call_eq_ok : call c ns = .ok n ↔ c.isStatement = false ∧
    (∀ a ∈ ns, a.isStatement = false) ∧ n = .call c ns :=
  need_bind.trans (and_congr_right fun _ => needAll_bind.trans (and_congr_right fun _ => ok_eq_ok))

theorem new_eq_ok : new c ns = .ok n ↔ c.isStatement = false ∧
    (∀ a ∈ ns, a.isStatement = false) ∧ n = .new c ns :=
  need_bind.trans (and_congr_right fun _ => needAll_bind.trans (and_congr_right fun _ => ok_eq_ok))

/-! ## Statements -/

theorem statement_eq_ok : statement v = .ok n ↔ v.isStatement = false ∧ n = .statement v :=
  need_bind.trans (and_congr_right fun _ => ok_eq_ok)

theorem throwValue_eq_ok : throwValue v = .ok n ↔ v.isStatement = false ∧ n = .throwValue v :=
  need_bind.trans (and_congr_right fun _ => ok_eq_ok)

theorem ret_eq_ok : ret value = .ok n ↔ (∀ v ∈ value, v.isStatement = false) ∧ n = .ret value :=
  needOption_bind.trans (and_congr_right fun _ => ok_eq_ok)

theorem block_eq_ok : block ns = .ok n ↔ (∀ s ∈ ns, s.isStatement = true) ∧ n = .block ns := by
  unfold block
  split
  · next s h =>
    have hs := List.find?_some h
    simp only [reduceCtorEq, false_iff, not_and]
    intro hall
    simp [hall s (List.mem_of_find?_eq_some h)] at hs
  · next h =>
    have hall : ∀ s ∈ ns, s.isStatement = true := by simpa using h
    exact ⟨fun hn => ⟨hall, (Except.ok.inj hn).symm⟩, fun hn => congrArg _ hn.2.symm⟩

theorem block_bind {α : Type} {rest : Node → Built α} {a : α} : (block ns >>= rest) = .ok a ↔
    (∀ s ∈ ns, s.isStatement = true) ∧ rest (.block ns) = .ok a := by
  rw [bind_eq_ok]
  simp only [block_eq_ok, and_assoc, exists_and_left, exists_eq_left]

theorem function_eq_ok {ps : List Node} : function ps ns = .ok n ↔ (∀ p ∈ ps, p.isIdentifier = true) ∧
    (∀ s ∈ ns, s.isStatement = true) ∧ n = .function ps (.block ns) := by
  unfold function
  split
  · next p h =>
    have hp := List.find?_some h
    simp only [reduceCtorEq, false_iff, not_and]
    intro hall
    simp [hall p (List.mem_of_find?_eq_some h)] at hp
  · next h =>
    have hall : ∀ p ∈ ps, p.isIdentifier = true := by simpa using h
    refine block_bind.trans ((and_congr_right fun _ => ok_eq_ok).trans ?_)
    exact iff_and_self.2 fun _ => hall

theorem branch_eq_ok : branch c ns value = .ok n ↔ c.isStatement = false ∧
    (∀ e ∈ value, e.isBlock = true ∨ e.isBranch = true) ∧ (∀ s ∈ ns, s.isStatement = true) ∧
      n = .branch c (.block ns) value := by
  have hbody : (do return Node.branch c (← block ns) value : Built Node) = .ok n ↔
      (∀ s ∈ ns, s.isStatement = true) ∧ n = .branch c (.block ns) value :=
    block_bind.trans (and_congr_right fun _ => ok_eq_ok)
  refine need_bind.trans (and_congr_right fun _ => ?_)
  cases value with
  | none => exact hbody.trans (iff_and_self.2 fun _ => nofun)
  | some e =>
    simp only [Option.mem_some_iff, forall_eq', ← Bool.or_eq_true]
    show ((if e.isBlock || e.isBranch then Pure.pure () else MonadExcept.throw (.elseBranch e.tag)) >>=
      fun _ => (do return Node.branch c (← block ns) (some e)) : Built Node) = _ ↔ _
    cases e.isBlock || e.isBranch with
    | true => exact hbody.trans (iff_and_self.2 fun _ => rfl)
    | false => exact ⟨nofun, fun h => nomatch h.1⟩

theorem whileLoop_eq_ok : whileLoop c ns = .ok n ↔ c.isStatement = false ∧
    (∀ s ∈ ns, s.isStatement = true) ∧ n = .whileLoop c (.block ns) :=
  need_bind.trans (and_congr_right fun _ => block_bind.trans (and_congr_right fun _ => ok_eq_ok))

theorem forLoop_eq_ok {init test step : Option Node} : forLoop init test step ns = .ok n ↔
    (∀ e ∈ init.toList ++ test.toList ++ step.toList, e.isStatement = false) ∧
      (∀ s ∈ ns, s.isStatement = true) ∧ n = .forLoop init test step (.block ns) :=
  needAll_bind.trans (and_congr_right fun _ => block_bind.trans (and_congr_right fun _ => ok_eq_ok))

theorem needFields_eq_ok {seen : List String} {fs : List Field} {u : Unit} (h : needFields seen fs = .ok u) :
    ∀ f ∈ fs, f.value.isStatement = false := by
  induction fs generalizing seen with
  | nil => exact nofun
  | cons f fs ih =>
    unfold needFields at h
    obtain ⟨-, h⟩ := refuse_eq_ok.1 h
    obtain ⟨_, hf, h⟩ := bind_eq_ok.1 h
    exact List.forall_mem_cons.2 ⟨needExpression_eq_ok.1 hf, ih h⟩

theorem object_eq_ok {fs : List Field} (h : object fs = .ok n) :
    (∀ f ∈ fs, f.value.isStatement = false) ∧ n = .object fs := by
  obtain ⟨_, hfs, h⟩ := bind_eq_ok.1 h
  exact ⟨needFields_eq_ok hfs, ok_eq_ok.1 h⟩

theorem tryCatch_eq_ok {handler : Option (String × List Node)} {cleanup : Option (List Node)}
    (h : tryCatch ns handler cleanup = .ok n) :
    (∀ x ∈ handler, isIdentifierName x.1 = true ∧ ∀ s ∈ x.2, s.isStatement = true) ∧
      (∀ s ∈ ns, s.isStatement = true) ∧ (∀ x ∈ cleanup, ∀ s ∈ x, s.isStatement = true) ∧
      n = .tryCatch (.block ns) (handler.map fun x => ⟨x.1, .block x.2⟩) (cleanup.map .block) := by
  unfold tryCatch at h
  obtain ⟨-, h⟩ := refuse_eq_ok.1 h
  obtain ⟨handler', hhandler, h⟩ := bind_eq_ok.1 h
  obtain ⟨hbody, h⟩ := block_bind.1 h
  obtain ⟨cleanup', hcleanup, h⟩ := bind_eq_ok.1 h
  obtain rfl := ok_eq_ok.1 h
  have hhandler : (∀ x ∈ handler, isIdentifierName x.1 = true ∧ ∀ s ∈ x.2, s.isStatement = true) ∧
      handler' = handler.map fun x => ⟨x.1, .block x.2⟩ := by
    cases handler with
    | none => exact ⟨nofun, ok_eq_ok.1 hhandler⟩
    | some x =>
      obtain ⟨handler', hmade, h⟩ := bind_eq_ok.1 hhandler
      obtain ⟨hbinding, hmade⟩ := guard_eq_ok.1 hmade
      obtain ⟨hstmts, hmade⟩ := block_bind.1 hmade
      obtain rfl := ok_eq_ok.1 hmade
      exact ⟨by simpa using ⟨hbinding, hstmts⟩, ok_eq_ok.1 h⟩
  have hcleanup : (∀ x ∈ cleanup, ∀ s ∈ x, s.isStatement = true) ∧ cleanup' = cleanup.map .block := by
    cases cleanup with
    | none => exact ⟨nofun, ok_eq_ok.1 hcleanup⟩
    | some ss =>
      obtain ⟨hss, h⟩ := block_bind.1 hcleanup
      exact ⟨by simpa using hss, ok_eq_ok.1 h⟩
  exact ⟨hhandler.1, hbody, hcleanup.1, by rw [hhandler.2, hcleanup.2]⟩

end ClassScript.Script
