import ClassScript.Proofs.Simplify.Jumps
/-!
# Loops over elements

A loop over elements becomes a call with a callback, unless its body returns (`foreach_control_flow`). The jumps of
the callback are those of the loop and not of a loop inside of it, and each of them stays in the callback.

The pass for arrays visits a body before the loop around it, so the loops inside of it are closures already.
`Rewritten` says what both have in common: the jumps of a part stay what they were.
-/

namespace ClassScript

/-! ## Closures -/

/-- The condition holds of all closures of a part. -/
def Part.EachClosure (P : Closure → Prop) (p : Part) : Prop := ∀ c, .closure c ∈ p.all → P c

section EachClosure

variable {P : Closure → Prop} {p : Part}

theorem eachClosure_iff :
    p.EachClosure P ↔ (∀ c, p = .closure c → P c) ∧ ∀ d ∈ p.children, d.EachClosure P := by
  unfold Part.EachClosure
  rw [Part.all_eq]
  simp only [List.mem_cons, List.mem_flatMap]
  constructor
  · exact fun h => ⟨fun c hc => h c (.inl hc.symm), fun d hd c hc => h c (.inr ⟨d, hd, hc⟩)⟩
  · rintro ⟨hself, hchildren⟩ c (hc | ⟨d, hd, hc⟩)
    · exact hself c hc.symm
    · exact hchildren d hd c hc

theorem Part.EachClosure.child {d : Part} (h : p.EachClosure P) (hd : d ∈ p.children) : d.EachClosure P :=
  (eachClosure_iff.1 h).2 d hd

theorem eachClosure_expr {e : Expr} :
    (Part.expr e).EachClosure P ↔ ∀ d ∈ (Part.expr e).children, d.EachClosure P :=
  eachClosure_iff.trans (and_iff_right nofun)

theorem eachClosure_stmt {s : Stmt} :
    (Part.stmt s).EachClosure P ↔ ∀ d ∈ (Part.stmt s).children, d.EachClosure P :=
  eachClosure_iff.trans (and_iff_right nofun)

end EachClosure

/-! ## Jumps that stay -/

/-- A jump and the loops around it, without the value that it returns. -/
def withoutValue : Nat × Stmt → Nat × Stmt
  | (k, .ret p _) => (k, .ret p none)
  | x => x

theorem withoutValue_of_not_isReturn {x : Nat × Stmt} (h : ¬x.2.IsReturn) : withoutValue x = x := by
  obtain ⟨k, s⟩ := x
  cases s with
  | ret => exact absurd ⟨_, _, rfl⟩ h
  | _ => rfl

theorem isReturn_withoutValue {x : Nat × Stmt} : (withoutValue x).2.IsReturn ↔ x.2.IsReturn := by
  obtain ⟨k, s⟩ := x
  cases s with
  | ret => exact ⟨fun _ => ⟨_, _, rfl⟩, fun _ => ⟨_, _, rfl⟩⟩
  | _ => rfl

/-- If nothing returns, there are no values to leave out. -/
theorem eq_of_withoutValue {xs ys : List (Nat × Stmt)} (h : xs.map withoutValue = ys.map withoutValue)
    (hxs : ∀ x ∈ xs, ¬x.2.IsReturn) : ys = xs := by
  induction xs generalizing ys with
  | nil => exact List.map_eq_nil_iff.1 h.symm
  | cons x xs ih =>
    obtain ⟨hx, hxs⟩ := List.forall_mem_cons.1 hxs
    obtain ⟨y, ys, rfl, hy, hys⟩ := List.map_eq_cons_iff.1 h.symm
    have hy' : ¬y.2.IsReturn := by rwa [← isReturn_withoutValue, hy, isReturn_withoutValue]
    rw [withoutValue_of_not_isReturn hx, withoutValue_of_not_isReturn hy'] at hy
    rw [hy, ih hys.symm hxs]

theorem Rebuilt.jump?_withoutValue {κ : Type} {R : Change κ} {k k' : κ} {p p' : Part} (h : Rebuilt R k p p' k')
    (n : Nat) : (p'.jump?.map (n, ·)).map withoutValue = (p.jump?.map (n, ·)).map withoutValue := by
  cases h <;> rfl

/-- A jump that leaves nothing but the callback or a loop inside of it: a `break` or `continue` has a loop around it,
and a return says whether to go on with the elements. -/
def StaysInside : Nat × Stmt → Prop
  | (k, .breakLoop _) | (k, .continueLoop _) => 0 < k
  | (k, .ret p v) => k = 0 ∧ (v = none ∨ v = some (.bool p false))
  | _ => True

/-- If the closure is a callback, its jumps stay inside. -/
def Closure.Contained (c : Closure) : Prop :=
  c.isIteration = true → ∀ x ∈ jumpsIn false c.body, StaysInside x

theorem Rebuilt.contained {κ : Type} {R : Change κ} {k k' : κ} {p p' : Part} (h : Rebuilt R k p p' k')
    (hp : p.EachClosure (·.isIteration = false)) (c : Closure) (hc : p' = .closure c) : c.Contained := by
  intro hcallback
  have hself := (eachClosure_iff.1 hp).1
  cases h with
  | leaf => exact nomatch (hself c hc).symm.trans hcallback
  | closure =>
    cases hc
    exact nomatch (hself _ rfl).symm.trans hcallback
  | _ => cases hc

namespace Simplify

theorem staysInside_turned {k : Nat} {s : Stmt} (hs : ¬s.IsReturn) : StaysInside (k, turned k s) := by
  cases s with
  | breakLoop p | continueLoop p => cases k <;> simp [turned, StaysInside]
  | ret => exact absurd ⟨_, _, rfl⟩ hs
  | _ => trivial

/-- A part before the pass for arrays and those behind it. -/
structure Rewritten (_ : Unit) (p : Part) (ps : List Part) (_ : Unit) : Prop where
  jumps : ∀ k, (ps.flatMap (·.jumps false k)).map withoutValue = (p.jumps true k).map withoutValue
  callbacks : p.EachClosure (·.isIteration = false) → ∀ p' ∈ ps, p'.EachClosure Closure.Contained

theorem Rewritten.jumps_chunks {u u' : Unit} {ps ps' : List Part} (h : Chunks Rewritten u ps ps' u') (k : Nat) :
    (ps'.flatMap (·.jumps false k)).map withoutValue = (ps.flatMap (·.jumps true k)).map withoutValue := by
  induction h with
  | nil => rfl
  | cons hp _ ih => rw [List.flatMap_append, List.map_append, List.flatMap_cons, List.map_append, hp.jumps, ih]

theorem Rewritten.callbacks_chunks {u u' : Unit} {ps ps' : List Part} (h : Chunks Rewritten u ps ps' u')
    (hps : ∀ p ∈ ps, p.EachClosure (·.isIteration = false)) : ∀ p' ∈ ps', p'.EachClosure Closure.Contained := by
  intro p' hp'
  obtain ⟨p, hp, _, hR, hmem⟩ := h.mem_of_same (fun _ => rfl) hp'
  exact hR.callbacks (hps p hp) p' hmem

/-- A rebuilt part that is no loop over elements. -/
theorem Rewritten.rebuilt {u u' : Unit} {p p' : Part} (h : Rebuilt Rewritten u p p' u')
    (hp' : p'.ownsJumps false = p'.ownsJumps true) : Rewritten u p [p'] u' where
  jumps k := by
    have hjump := h.jump?_withoutValue k
    rw [List.flatMap_singleton, Part.jumps_eq, Part.jumps_eq, hp', h.ownsJumps_eq, h.loopsBelow_eq]
    split
    · rfl
    · rw [List.map_append, List.map_append, Rewritten.jumps_chunks h.children, ← Option.toList_map,
        ← Option.toList_map, hjump]
  callbacks hsource p'' hp'' := by
    cases List.mem_singleton.1 hp''
    exact eachClosure_iff.2 ⟨h.contained hsource, Rewritten.callbacks_chunks h.children fun c hc => hsource.child hc⟩

theorem Rewritten.expr {u u' : Unit} {e e' : Expr}
    (h : (Part.expr e).EachClosure (·.isIteration = false) → (Part.expr e').EachClosure Closure.Contained) :
    Rewritten u (.expr e) [.expr e'] u' where
  jumps k := by simp
  callbacks hsource p' hp' := List.mem_singleton.1 hp' ▸ h hsource

/-! ## Calls -/

section Calls

variable {P : Closure → Prop}

theorem callMethod_eachClosure {p : Position} {o : Expr} {n : String} {as : List Expr}
    (ho : (Part.expr o).EachClosure P) (has : ∀ a ∈ as, (Part.expr a).EachClosure P) :
    (Part.expr (callMethod p o n as)).EachClosure P := by
  refine eachClosure_expr.2 fun d hd => ?_
  rcases mem_children_callMethod.1 hd with rfl | ⟨a, ha, rfl⟩
  · exact ho
  · exact has a ha

theorem intoCalls_contained : IntoCalls Rewritten (fun e => (Part.expr e).EachClosure (·.isIteration = false))
    fun e => (Part.expr e).EachClosure Closure.Contained where
  each h he := h.callbacks he _ (.head _)
  sub he hc := he.child (Part.expr_mem_children hc)
  call := callMethod_eachClosure

theorem callback_eachClosure {k : Nat} {ps ps' : List Part} (h : List.Forall₂ (Callback k) ps ps')
    (hps : ∀ p ∈ ps, p.EachClosure P) : ∀ p' ∈ ps', p'.EachClosure P := by
  induction h with
  | nil => exact List.forall_mem_nil _
  | cons hc _ ih =>
    obtain ⟨hp, hps⟩ := List.forall_mem_cons.1 hps
    exact List.forall_mem_cons.2 ⟨fun c hmem => hp c (hc.closure_mem_all hmem), ih hps⟩

/-- The callback of a loop: its jumps stay inside, and it has no closures but those of the body. -/
theorem iteration_contained {p : Position} {subject : Expr} {key : Option Expr} {value : Expr} {body : List Stmt}
    {s : Stmt} (h : iteration p subject key value body = .ok s)
    (hsubject : (Part.expr subject).EachClosure Closure.Contained)
    (hbody : ∀ q ∈ Part.stmts body, q.EachClosure Closure.Contained) :
    (Part.stmt s).EachClosure Closure.Contained := by
  obtain ⟨ps, body', hps, hrun, rfl⟩ := iteration_ok h
  obtain ⟨hreturns, hcallback⟩ := callbackBody_ok hrun
  refine eachClosure_stmt.2 ?_
  rintro _ (_ | ⟨_, ⟨⟩⟩)
  refine callMethod_eachClosure hsubject ?_
  rintro _ (_ | ⟨_, ⟨⟩⟩)
  refine eachClosure_expr.2 ?_
  rintro _ (_ | ⟨_, ⟨⟩⟩)
  refine eachClosure_iff.2 ⟨?_, fun d hd => ?_⟩
  · rintro _ ⟨⟩ - x hx
    rw [jumpsIn_callback hcallback hreturns] at hx
    obtain ⟨y, hy, rfl⟩ := List.mem_map.1 hx
    exact staysInside_turned fun hreturn => hreturns ⟨y, hy, hreturn⟩
  · rcases List.mem_append.1 hd with hd | hd
    · obtain ⟨q, hq, rfl⟩ := List.mem_map.1 hd
      refine eachClosure_iff.2 ⟨nofun, ?_⟩
      simp [Part.children, (hps q hq).default, Part.exprs]
    · exact callback_eachClosure hcallback hbody d hd

end Calls

theorem Rewritten.iteration {u u' : Unit} {s s' : Stmt} {p : Position} {subject : Expr} {key : Option Expr}
    {value : Expr} {byRef : Bool} {body : List Stmt}
    (h : Rebuilt Rewritten u (.stmt s) (.stmt (.foreach p subject key value byRef body)) u')
    (hs' : iteration p subject key value body = .ok s') : Rewritten u (.stmt s) [.stmt s'] u' where
  jumps k := by
    -- The loop had its jumps for itself, and so has the closure that it is now.
    obtain ⟨_, _, -, -, rfl⟩ := iteration_ok hs'
    have howns : (Part.stmt s).ownsJumps true = true := (h.ownsJumps_eq true).symm
    rw [List.flatMap_singleton, Part.jumps_of_owns howns, Part.jumps_of_not_owns rfl]
    simp [Part.jump?, Part.children, Part.ofStmt]
  callbacks hsource p' hp' := by
    cases List.mem_singleton.1 hp'
    have hchildren := Rewritten.callbacks_chunks h.children fun c hc => hsource.child hc
    refine iteration_contained hs' (hchildren _ (.head _)) fun q hq => hchildren q ?_
    simp [Part.children, Part.ofStmt, hq]

/-! ## The pass -/

theorem arrays_rewritten : Sound (.unlessFailed Fault Unit) arrays Rewritten fun _ e e' _ =>
    (Part.expr e).EachClosure (·.isIteration = false) → (Part.expr e').EachClosure Closure.Contained where
  below _ h := fun he => (Rewritten.rebuilt h rfl).callbacks he _ (.head _)
  array hvs e' he' := fun he =>
    intoCalls_contained.addItems hvs he' (eachClosure_expr.2 nofun) fun _ => intoCalls_contained.sub he
  store hv _ he' := intoCalls_contained.store hv he'
  expr h := Logic.bind _ (h _) fun e₁ _ he₁ => by
    cases e₁ with
    | index p a i =>
      cases i with
      | none => exact nofun
      | some i =>
        refine Logic.pure _ (.expr fun he => ?_)
        have hindex := he₁ he
        exact callMethod_eachClosure (hindex.child (.head _)) (by simpa using hindex.child (.tail _ (.head _)))
    | _ => exact Logic.pure _ (.expr he₁)
  stmt h := Logic.bind _ (h _) fun s₁ _ hs₁ => by
    cases s₁ with
    | foreach p subject key value byRef body =>
      cases byRef with
      | true => exact nofun
      | false =>
        intro ss hss
        obtain ⟨s, hs, hss⟩ := bind_eq_ok.1 hss
        cases hss
        exact .iteration hs₁ hs
    | _ => exact Logic.pure _ (.rebuilt hs₁ rfl)
  param h := Logic.weaken _ (h _) fun _ _ hp => .rebuilt hp rfl
  closure h := Logic.weaken _ (h _) fun _ _ hc => .rebuilt hc rfl
  clause h := Logic.weaken _ (h _) fun _ _ hc => .rebuilt hc rfl
  method h := Logic.weaken _ (h _) fun _ _ hm => .rebuilt hm rfl
  cls h := Logic.weaken _ (h _) fun _ _ hc => .rebuilt hc rfl
  iface h := Logic.weaken _ (h _) fun _ _ hi => .rebuilt hi rfl

section Arrays

variable {ss ss' : List Stmt} (h : stmtsThrough arrays ss = .ok ss')

include h

/-- The pass leaves the jumps that do not belong to a loop over elements. -/
theorem arrays_jumpsIn : (jumpsIn false ss').map withoutValue = (jumpsIn true ss).map withoutValue :=
  Rewritten.jumps_chunks (arrays_rewritten.stmts ss () ss' h).chunks 0

theorem arrays_contained (hss : ∀ p ∈ Part.stmts ss, p.EachClosure (·.isIteration = false)) :
    ∀ p ∈ Part.stmts ss', p.EachClosure Closure.Contained :=
  Rewritten.callbacks_chunks (arrays_rewritten.stmts ss () ss' h).chunks hss

end Arrays

/-! ## Control flow -/

/-- A plain variable stays, and it is bound by its name. -/
theorem binding_of_variableName {e : Expr} {n : String} (h : e.variableName? = some n) :
    e.through arrays = .ok e ∧ ∃ q, binding e = .ok q ∧ q.name = n := by
  constructor
  · cases e <;> first | rfl | cases h
  · unfold binding
    rw [h]
    exact ⟨_, rfl, rfl⟩

@[inherit_doc binding_of_variableName]
theorem bindings_of_variableNames {key : Option Expr} {k : Option String}
    (h : key.mapM (·.variableName?) = some k) :
    optionThrough arrays key = .ok key ∧ ∃ q, key.mapM binding = .ok q ∧ q.map (·.name) = k := by
  cases key with
  | none =>
    cases h
    exact ⟨rfl, none, rfl, rfl⟩
  | some e =>
    obtain ⟨n, hn, rfl⟩ := Option.map_eq_some_iff.1 h
    obtain ⟨hthrough, q, hq, hname⟩ := binding_of_variableName hn
    refine ⟨?_, some q, ?_, congrArg some hname⟩
    · change (do return some (← e.through arrays)) = _
      rw [hthrough]
      rfl
    · rw [Option.mapM_some, hq]
      rfl

/-- With plain variables to bind, a loop is what its body is as a callback. -/
theorem foreach_through {p : Position} {subject subject' value : Expr} {key : Option Expr}
    {body body' : List Stmt} {v : String} {k : Option String} (hsubject : subject.through arrays = .ok subject')
    (hkey : key.mapM (·.variableName?) = some k) (hvalue : value.variableName? = some v)
    (hbody : stmtsThrough arrays body = .ok body') :
    ∃ ps : List Param, ps.map (·.name) = v :: k.toList ∧
      (Stmt.foreach p subject key value false body).through arrays = do
        let callback ← (stmtsThrough callbackBody body').run 0
        return [.expression (callMethod p subject' "foreach"
          [.closure p ⟨ps, [], callback, false, false, true⟩])] := by
  obtain ⟨hvalue, q, hq, hname⟩ := binding_of_variableName hvalue
  obtain ⟨hkey, kq, hkq, hnames⟩ := bindings_of_variableNames hkey
  refine ⟨q :: kq.toList, ?_, ?_⟩
  · rw [List.map_cons, hname, ← Option.toList_map, hnames]
  · change arrays.stmt _ (do
      let subject ← subject.through arrays
      let key ← optionThrough arrays key
      let value ← value.through arrays
      return .foreach p subject key value false (← stmtsThrough arrays body)) = _
    rw [hsubject, hkey, hvalue, hbody]
    change (do return [← iteration p subject' key value body']) = _
    rw [iteration, hq, hkq]
    cases (stmtsThrough callbackBody body').run 0 <;> rfl

/-- A loop over elements with plain variables becomes a call unless its body returns, and then the fault says so.
The callback is the body with its jumps turned, which are the jumps of this loop alone. However loops are nested, no
`break` and no `continue` leaves a callback, and what a callback returns is meant for the call that it is made for. -/
theorem foreach_control_flow :
    (∀ {p : Position} {subject subject' value : Expr} {key : Option Expr} {body body' : List Stmt} {v : String}
        {k : Option String},
      subject.through arrays = .ok subject' → key.mapM (·.variableName?) = some k →
      value.variableName? = some v → stmtsThrough arrays body = .ok body' →
      ((∃ q, (Stmt.foreach p subject key value false body).through arrays = .error ⟨.foreachReturn, q⟩) ↔
        Returns body') ∧
      (¬Returns body' → ∃ ps callback,
        (Stmt.foreach p subject key value false body).through arrays = .ok [.expression
          (callMethod p subject' "foreach" [.closure p ⟨ps, [], callback, false, false, true⟩])] ∧
        ps.map (·.name) = v :: k.toList ∧
        List.Forall₂ (Callback 0) (Part.stmts body') (Part.stmts callback) ∧
        jumpsIn false callback = (jumpsIn true body).map fun x => (x.1, turned x.1 x.2))) ∧
    ∀ {ss ss' : List Stmt}, stmtsThrough arrays ss = .ok ss' →
      (∀ p ∈ Part.stmts ss, p.EachClosure (·.isIteration = false)) →
      ∀ p ∈ Part.stmts ss', p.EachClosure Closure.Contained := by
  refine ⟨fun {p _ _ _ _ _ body' _ _} hsubject hkey hvalue hbody => ?_, arrays_contained⟩
  obtain ⟨ps, hps, hthrough⟩ := foreach_through (p := p) hsubject hkey hvalue hbody
  rw [hthrough]
  cases hrun : (stmtsThrough callbackBody body').run 0 with
  | error f =>
    obtain ⟨hcause, hreturns⟩ := callbackBody_error hrun
    exact ⟨⟨fun _ => hreturns, fun _ => ⟨f.pos, by rw [← hcause]; rfl⟩⟩, fun hnot => absurd hreturns hnot⟩
  | ok callback =>
    obtain ⟨hreturns, hcallback⟩ := callbackBody_ok hrun
    refine ⟨⟨nofun, fun h => absurd h hreturns⟩, fun _ => ⟨ps, callback, rfl, hps, hcallback, ?_⟩⟩
    -- The pass may change what is returned, but here nothing returns.
    have hjumps := eq_of_withoutValue (arrays_jumpsIn hbody) fun x hx hreturn => hreturns ⟨x, hx, hreturn⟩
    rw [jumpsIn_callback hcallback hreturns, hjumps]

/-- The body of a loop over `$rows`:
`while ($go) { break; foreach ($row as $x) { continue; } } if ($row) { continue; } break;` -/
def nestedBody : List Stmt :=
  [.whileLoop .unknown (.var .unknown "go")
    [.breakLoop .unknown,
      .foreach .unknown (.var .unknown "row") none (.var .unknown "x") false [.continueLoop .unknown]],
    .branch .unknown (.var .unknown "row") [.continueLoop .unknown] [] none,
    .breakLoop .unknown]

def nestedLoop : Stmt :=
  .foreach .unknown (.var .unknown "rows") (some (.var .unknown "i")) (.var .unknown "row") false nestedBody

theorem nestedLoop_control_flow :
    (∃ ps callback,
      nestedLoop.through arrays = .ok [.expression (callMethod .unknown (.var .unknown "rows") "foreach"
        [.closure .unknown ⟨ps, [], callback, false, false, true⟩])] ∧
      ps.map (·.name) = ["row", "i"] ∧
      jumpsIn false callback =
        [(1, .breakLoop .unknown), (0, .ret .unknown none), (0, .ret .unknown (some (.bool .unknown false)))]) ∧
    ∃ ss', stmtsThrough arrays [nestedLoop] = .ok ss' ∧ ∀ p ∈ Part.stmts ss', p.EachClosure Closure.Contained := by
  have hjumps : jumpsIn true nestedBody =
      [(1, .breakLoop .unknown), (0, .continueLoop .unknown), (0, .breakLoop .unknown)] := by
    simp [jumpsIn, nestedBody, Part.stmts, Part.jumps_stmt, Part.ownsJumps, Part.jump?, Part.children, Part.ofStmt,
      Part.loopsBelow, Part.elseIfs]
  constructor
  · obtain ⟨hfault, hok⟩ := foreach_control_flow.1 (p := .unknown)
      (rfl : (Expr.var .unknown "rows").through arrays = .ok (.var .unknown "rows"))
      (rfl : (some (Expr.var .unknown "i")).mapM (·.variableName?) = some (some "i"))
      (rfl : (Expr.var .unknown "row").variableName? = some "row")
      (rfl : stmtsThrough arrays nestedBody = .ok _)
    obtain ⟨ps, callback, hrun, hps, -, hcallback⟩ := hok fun hreturns => by
      obtain ⟨_, hrun⟩ := hfault.2 hreturns
      cases hrun
    exact ⟨ps, callback, hrun, hps, by rw [hcallback, hjumps]; rfl⟩
  · refine ⟨_, rfl, foreach_control_flow.2 (rfl : stmtsThrough arrays [nestedLoop] = .ok _) ?_⟩
    simp [nestedLoop, nestedBody, Part.stmts, eachClosure_stmt, eachClosure_expr, Part.children, Part.ofStmt,
      Part.ofExpr, Part.exprs, Part.elseIfs]

end Simplify

end ClassScript
