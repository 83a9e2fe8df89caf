import ClassScript.Script.Build
/-!
# Faults of the builders

A node that cannot be made is one with wrong arguments: every fault of a builder is of that kind
(`Clean`). Only printing can meet a malformed node.
-/

namespace ClassScript.Script

/-- Whatever fault the action ends with, it is about its arguments. -/
def Clean {α : Type} (b : Built α) : Prop := ∀ f, b = .error f → f.kind = .invalidArgument

namespace Clean

variable {α β : Type}

theorem ok (a : α) : Clean (.ok a) := nofun

theorem pure (a : α) : Clean (Pure.pure a) := nofun

theorem error {f : Fault} (h : f.kind = .invalidArgument) : Clean (.error f : Built α) := by
  rintro _ ⟨⟩
  exact h

theorem throw {f : Fault} (h : f.kind = .invalidArgument) : Clean (MonadExcept.throw f : Built α) :=
  error h

theorem bind {b : Built α} {f : α → Built β} (hb : Clean b) (hf : ∀ a, Clean (f a)) :
    Clean (b >>= f) := by
  cases b with
  | error e =>
    rintro _ ⟨⟩
    exact hb e rfl
  | ok a => exact hf a

theorem ite {c : Prop} [Decidable c] {b b' : Built α} (h : Clean b) (h' : Clean b') :
    Clean (if c then b else b') := by
  split
  · exact h
  · exact h'

theorem forM {l : List α} {f : α → Built Unit} (h : ∀ a, Clean (f a)) : Clean (l.forM f) := by
  induction l with
  | nil => exact ok ()
  | cons a l ih => exact (h a).bind fun _ => ih

theorem optionForM {o : Option α} {f : α → Built Unit} (h : ∀ a, Clean (f a)) : Clean (o.forM f) := by
  cases o with
  | none => exact ok ()
  | some a => exact h a

theorem optionMapM {o : Option α} {f : α → Built β} (h : ∀ a, Clean (f a)) : Clean (o.mapM f) := by
  cases o with
  | none => exact ok none
  | some a => exact (h a).bind fun b => ok (some b)

theorem foldlM {l : List α} {f : β → α → Built β} (h : ∀ b a, Clean (f b a)) (b : β) :
    Clean (l.foldlM f b) := by
  induction l generalizing b with
  | nil => exact ok b
  | cons a l ih => exact (h b a).bind ih

theorem mapM {l : List α} {f : α → Built β} (h : ∀ a, Clean (f a)) : Clean (l.mapM f) := by
  have loop (l : List α) (acc : List β) : Clean (List.mapM.loop f l acc) := by
    induction l generalizing acc with
    | nil => exact ok _
    | cons a l ih => exact (h a).bind fun b => ih (b :: acc)
  exact loop l []

end Clean

variable (name : String) (n m : Node) (ns : List Node)

theorem clean_needExpression (role : String) : Clean (needExpression role n) :=
  .ite (.error rfl) (.ok ())

theorem clean_ident : Clean (ident name) := .ite (.ok _) (.error rfl)

theorem clean_assign : Clean (assign n m) := by
  have rest (_ : Unit) : Clean (do needExpression "assigned value" m; return Node.assign n m) :=
    (clean_needExpression m _).bind fun _ => .pure _
  exact .ite (rest ()) (.bind (.throw rfl) rest)

theorem clean_declare (value : Option Node) : Clean (declare name value) := by
  have rest (_ : Unit) :
      Clean (do value.forM (needExpression "initializer"); return Node.declare name value) :=
    .bind (.optionForM fun v => clean_needExpression v _) fun _ => .pure _
  exact .ite (rest ()) (.bind (.throw rfl) rest)

theorem clean_binary (symbol : String) : Clean (binary symbol n m) := by
  unfold binary
  split
  · exact .error rfl
  · refine (clean_needExpression n _).bind fun _ => ?_
    exact (clean_needExpression m _).bind fun _ => .pure _

theorem clean_chain (symbol : String) : Clean (chain symbol ns) := by
  cases ns with
  | nil => exact .error rfl
  | cons n ns => exact .foldlM (fun n m => clean_binary n m symbol) n

theorem clean_unary (symbol : String) : Clean (unary symbol n) := by
  unfold unary
  split
  · exact .error rfl
  · exact (clean_needExpression n _).bind fun _ => .pure _

theorem clean_negate : Clean (negate n) := clean_unary n "!"

theorem clean_ternary (test : Node) : Clean (ternary test n m) := by
  refine (clean_needExpression test _).bind fun _ => ?_
  refine (clean_needExpression n _).bind fun _ => ?_
  exact (clean_needExpression m _).bind fun _ => .pure _

theorem clean_propertyOf : Clean (propertyOf n ns) := by
  have rest (_ : Unit) : Clean (do
      needExpression "object" n
      ns.foldlM (fun object key => do
        needExpression "property" key
        return Node.property object key) n) := by
    refine (clean_needExpression n _).bind fun _ => .foldlM (fun object key => ?_) n
    exact (clean_needExpression key _).bind fun _ => .pure _
  exact .ite (.bind (.throw rfl) rest) (rest ())

theorem clean_member : Clean (member n name) := clean_propertyOf n _

theorem clean_path (words : List String) : Clean (path words) := by
  cases words with
  | nil => exact .error rfl
  | cons word words =>
    exact (clean_ident word).bind fun n => .foldlM (fun n word => clean_member word n) n

theorem clean_call : Clean (call n ns) := by
  refine (clean_needExpression n _).bind fun _ => ?_
  exact .bind (.forM fun a => clean_needExpression a _) fun _ => .pure _

theorem clean_methodCall : Clean (methodCall n name ns) :=
  (clean_member name n).bind fun callee => clean_call callee ns

theorem clean_new : Clean (new n ns) := by
  refine (clean_needExpression n _).bind fun _ => ?_
  exact .bind (.forM fun a => clean_needExpression a _) fun _ => .pure _

theorem clean_block : Clean (block ns) := by
  unfold block
  split
  · exact .error rfl
  · exact .ok _

theorem clean_function (params : List Node) : Clean (function params ns) := by
  unfold function
  split
  · exact .error rfl
  · exact (clean_block ns).bind fun _ => .pure _

theorem clean_needFields (fs : List Field) (seen : List String) : Clean (needFields seen fs) := by
  induction fs generalizing seen with
  | nil => exact .ok _
  | cons f fs ih =>
    have rest (_ : Unit) : Clean (do
        needExpression "object field" f.value
        needFields (f.key :: seen) fs) := (clean_needExpression _ _).bind fun _ => ih _
    exact .ite (.bind (.throw rfl) rest) (rest ())

theorem clean_object (fields : List Field) : Clean (object fields) :=
  (clean_needFields fields []).bind fun _ => .pure _

theorem clean_statement : Clean (statement n) := (clean_needExpression n _).bind fun _ => .pure _

theorem clean_ret (value : Option Node) : Clean (ret value) :=
  .bind (.optionForM fun v => clean_needExpression v _) fun _ => .pure _

theorem clean_branch (otherwise : Option Node) : Clean (branch n ns otherwise) := by
  refine (clean_needExpression n _).bind fun _ => ?_
  refine .bind (.optionForM fun _ => .ite (.pure _) (.throw rfl)) fun _ => ?_
  exact (clean_block ns).bind fun _ => .pure _

theorem clean_whileLoop : Clean (whileLoop n ns) := by
  refine (clean_needExpression n _).bind fun _ => ?_
  exact (clean_block ns).bind fun _ => .pure _

theorem clean_forLoop (init test step : Option Node) : Clean (forLoop init test step ns) := by
  refine .bind (.forM fun a => clean_needExpression a _) fun _ => ?_
  exact (clean_block ns).bind fun _ => .pure _

theorem clean_tryCatch (handler : Option (String × List Node)) (cleanup : Option (List Node)) :
    Clean (tryCatch ns handler cleanup) := by
  have handled (binding : String) (stmts : List Node) (_ : Unit) :
      Clean (do return (⟨binding, ← block stmts⟩ : Handler)) :=
    (clean_block stmts).bind fun _ => .pure _
  unfold tryCatch
  refine .ite (.bind (.throw rfl) fun _ => ?_) ?_
  all_goals
    refine .bind (.optionMapM fun ⟨binding, stmts⟩ => ?_) fun handler => ?_
    · exact .ite (handled binding stmts ()) (.bind (.throw rfl) (handled binding stmts))
    · refine (clean_block ns).bind fun body => ?_
      exact .bind (.optionMapM clean_block) fun cleanup => .pure _

theorem clean_throwValue : Clean (throwValue n) := (clean_needExpression n _).bind fun _ => .pure _

end ClassScript.Script
