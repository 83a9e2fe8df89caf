import ClassScript.Proofs.Simplify.Placed
/-!
# What the passes leave alone

Each pass leaves alone the trees in which it has nothing left to do: that with resolved names and classes that
are named in their namespaces stays as it is when names are resolved (`names_inert`), that without imports when
they are dropped, and so on. None of the passes that can fail fails there.
-/

namespace ClassScript

/-- A type of this name is the class around it. -/
def Name.isSelf (n : Name) : Bool := n.parts.length == 1 && sameWord n.first "self"

theorem Everywhere.inOrder {κ : Type} {enter : κ → Part → κ} {P : κ → Part → Prop} {k : κ} {e : Expr}
    (h : Everywhere enter P k (.expr e)) (hP : ∀ {k p}, P k p → p.NoArray) : e.inOrder = true := by
  cases e with
  | array => exact (hP h.head).elim
  | assign p t v d =>
    have ht : Everywhere enter P (enter k _) (.expr t) := h.subexpr (.head _)
    cases t with
    | index => exact (hP ht.head).elim
    | _ => rfl
  | _ => rfl

namespace Simplify

/-! ## Names -/

/-- No import, no name that is left to resolve, and the name that the scope gives. -/
structure FinalNames (s : Scope) (p : Part) : Prop where
  noArray : p.NoArray
  noImport : p.NoImport
  names : ∀ n ∈ p.ownNames, n.IsGlobal
  type : ∀ t ∈ p.ownType?, (t.name.isScalar = true ∨ t.name.IsGlobal) ∧ t.name.isSelf = false
  named : p.NamedIn s.namespaceName

/-- The scope below a part. -/
def scopeBelow (s : Scope) : Part → Scope
  | .stmt (.nsBlock _ n _ _) => { s with namespaceName := n, aliases := [] }
  | .cls c => { s with owner := some (s.qualify c.name) }
  | .iface i => { s with owner := some (s.qualify i.name) }
  | _ => s

section Names

variable (s : Scope)

theorem resolveClass_of_isGlobal {n : Name} (h : n.IsGlobal) : s.resolveClass n = n := by
  rw [Scope.resolveClass, show n.kind = .fullyQualified from h]

theorem resolveFunction_of_isGlobal {n : Name} (h : n.IsGlobal) : s.resolveFunction n = n := by
  rw [Scope.resolveFunction, show n.kind = .fullyQualified from h]
  exact resolveClass_of_isGlobal s h

theorem map_resolveClass {ns : List Name} (h : ∀ n ∈ ns, n.IsGlobal) : ns.map s.resolveClass = ns :=
  (List.map_congr_left fun n hn => resolveClass_of_isGlobal s (h n hn)).trans (List.map_id _)

theorem resolveExpr_of_isGlobal {e : Expr} (h : ∀ n ∈ e.ownNames, n.IsGlobal) : s.resolveExpr e = e := by
  cases e with
  | new _ c _ | instanceOf _ _ c | classConst _ c _ | staticCall _ c _ _ | staticProperty _ c _ =>
    cases c with
    | named n => simp [Scope.resolveExpr, Scope.resolveRef, resolveClass_of_isGlobal s (h n (.head _))]
    | _ => rfl
  | call _ c _ =>
    cases c with
    | named n => simp [Scope.resolveExpr, resolveFunction_of_isGlobal s (h n (.head _))]
    | dynamic => rfl
  | const _ n => simp [Scope.resolveExpr, resolveFunction_of_isGlobal s (h n (.head _))]
  | _ => rfl

theorem resolveStmt_of_isGlobal {st : Stmt} (h : ∀ n ∈ (Part.stmt st).ownNames, n.IsGlobal) :
    s.resolveStmt st = st := by
  cases st with
  | tryCatch p b cs f =>
    have hcatch : ∀ c ∈ cs, s.resolveCatch c = id c := fun c hc => by
      rw [Scope.resolveCatch, map_resolveClass s fun n hn => h n (List.mem_flatMap.2 ⟨c, hc, hn⟩)]
      cases c
      rfl
    rw [Scope.resolveStmt, List.map_congr_left hcatch, List.map_id]
  | _ => rfl

theorem resolveType_of_final {t : TypeHint} (h : t.name.isScalar = true ∨ t.name.IsGlobal)
    (hself : t.name.isSelf = false) : s.resolveType t = t := by
  have hname : s.resolveTypeName t.name = t.name := by
    rw [Scope.resolveTypeName]
    split
    · rfl
    · next hscalar =>
      rw [if_neg (by simpa [Name.isSelf] using hself)]
      exact resolveClass_of_isGlobal s (h.resolve_left hscalar)
  rw [Scope.resolveType, hname]

end Names

theorem named_class {s : Scope} {c : Class} (h : FinalNames s (.cls c)) :
    { c with
      qualified := some (s.qualify c.name)
      parent := c.parent.map s.resolveClass
      interfaces := c.interfaces.map s.resolveClass } = c := by
  obtain ⟨n, parent, is, ms, a, f, pos, q, ap⟩ := c
  have hq : q = some (s.qualify n) := h.named
  have hparent : parent.map s.resolveClass = parent := by
    cases parent with
    | none => rfl
    | some n => exact congrArg some (resolveClass_of_isGlobal s (h.names n (.head _)))
  have his := map_resolveClass s fun n hn => h.names n (List.mem_append_right _ hn)
  simp only [hparent, his, hq]

theorem named_interface {s : Scope} {i : Interface} (h : FinalNames s (.iface i)) :
    { i with qualified := some (s.qualify i.name), parents := i.parents.map s.resolveClass } = i := by
  obtain ⟨n, ps, ms, pos, q⟩ := i
  have hq : q = some (s.qualify n) := h.named
  have hps : ps.map s.resolveClass = ps := map_resolveClass s h.names
  simp only [hps, hq]

theorem resolved_param {s : Scope} {p : Param} (h : FinalNames s (.param p)) :
    { p with type := p.type.map s.resolveType } = p := by
  obtain ⟨n, type, d, r, v, pr, pos⟩ := p
  cases type with
  | none => rfl
  | some t => simp only [Option.map_some, resolveType_of_final s (h.type t rfl).1 (h.type t rfl).2]

section Run

variable {α : Type} {k : Scope} {act : StateM Scope α} {a : α}

theorem leaves_iff_run : (Logic.tracking Eq).Leaves k act a ↔ act.run k = (a, k) := by
  constructor
  · intro h
    obtain ⟨_, hk, ha, rfl⟩ := h k rfl
    exact Prod.ext ha hk.symm
  · rintro h _ rfl
    exact ⟨k, by rw [h], by rw [h], rfl⟩

theorem leaves_get : (Logic.tracking Eq).Leaves k get k := leaves_iff_run.2 rfl

theorem leaves_inside {owner : String} (h : (Logic.tracking Eq).Leaves { k with owner := some owner } act a) :
    (Logic.tracking Eq).Leaves k (inside owner act) a := by
  refine leaves_iff_run.2 ?_
  change (fun x : α × Scope => (x.1, { x.2 with owner := k.owner })) (act.run { k with owner := some owner }) = _
  rw [leaves_iff_run.1 h]

theorem leaves_inNamespace {n : Option Name}
    (h : (Logic.tracking Eq).Leaves { k with namespaceName := n, aliases := [] } act a) :
    (Logic.tracking Eq).Leaves k (inNamespace n act) a := by
  refine leaves_iff_run.2 ?_
  change (fun x : α × Scope => (x.1, { x.2 with namespaceName := k.namespaceName, aliases := k.aliases }))
    (act.run { k with namespaceName := n, aliases := [] }) = _
  rw [leaves_iff_run.1 h]

end Run

theorem names_inert : Inert (.tracking Eq) names scopeBelow FinalNames where
  inOrder h := h.inOrder FinalNames.noArray
  expr he h := .bind h (.bind leaves_get (.of_eq (resolveExpr_of_isGlobal _ he.head.names)))
  stmt {k st act} hs h := by
    cases st with
    | nsBlock => exact (leaves_inNamespace h).single
    | imports => exact hs.head.noImport.elim
    | _ => exact .bind h (.bind leaves_get (.of_eq (congrArg ([·]) (resolveStmt_of_isGlobal _ hs.head.names))))
  param hp h := .bind leaves_get (.bind h (.of_eq (resolved_param hp.head)))
  closure _ h := h
  clause _ h := h
  method _ h := h
  cls hc h := .bind leaves_get (.bind (leaves_inside h) (.of_eq (named_class hc.head)))
  iface hi h := .bind leaves_get (.bind (leaves_inside h) (.of_eq (named_interface hi.head)))

/-! ## Imports, `self` and `parent`, compound assignments -/

theorem imports_inert : Inert (.plain Unit) imports (fun _ _ => ()) fun _ p => p.NoArray ∧ p.NoImport where
  inOrder h := h.inOrder And.left
  expr _ h := h
  stmt {_ s _} hs h := by
    cases s with
    | imports => exact hs.head.2.elim
    | _ => exact h.single
  param _ h := h
  closure _ h := h
  clause _ h := h
  method _ h := h
  cls _ h := h
  iface _ h := h

/-- The class around what stands below a part. -/
def ownerBelow (o : Owner) : Part → Owner
  | .cls c => ⟨some c.qualifiedName, c.parent.map Name.joined⟩
  | .iface i => ⟨some i.qualifiedName, none⟩
  | _ => o

theorem resolveExpr_of_noOwner (o : Owner) {e : Expr} (h : (Part.expr e).NoOwner) : o.resolveExpr e = .ok e := by
  cases e with
  | new _ c _ | instanceOf _ _ c | classConst _ c _ | staticCall _ c _ _ | staticProperty _ c _ =>
    cases c with
    | self => exact absurd rfl h.1
    | parent => exact absurd rfl h.2
    | _ => rfl
  | _ => rfl

theorem owners_inert : Inert (.reading Owner (.succeeding Fault Unit)) owners ownerBelow
    fun _ p => p.NoArray ∧ p.NoOwner where
  inOrder h := h.inOrder And.left
  expr he h := .bind h ⟨_, resolveExpr_of_noOwner _ he.head.2, rfl, rfl⟩
  stmt _ h := h.single
  param _ h := h
  closure _ h := h
  clause _ h := h
  method _ h := h
  cls _ h := h.imp fun _ ⟨hok, hc, _⟩ => ⟨hok, hc, rfl⟩
  iface _ h := h.imp fun _ ⟨hok, hc, _⟩ => ⟨hok, hc, rfl⟩

theorem plainAssign_of_noCompound {e : Expr} (h : (Part.expr e).NoCompound) : plainAssign e = e := by
  cases e with
  | assignOp | step => exact h.elim
  | _ => rfl

theorem compound_inert : Inert (.plain Unit) compound (fun _ _ => ()) fun _ p => p.NoArray ∧ p.NoCompound where
  inOrder h := h.inOrder And.left
  expr he h := ⟨(congrArg plainAssign h.1).trans (plainAssign_of_noCompound he.head.2), rfl⟩
  stmt _ h := h.single
  param _ h := h
  closure _ h := h
  clause _ h := h
  method _ h := h
  cls _ h := h
  iface _ h := h

/-! ## Types -/

theorem untyped_of_none {p : Param} (h : p.type = none) : untyped p = p := by
  cases p
  cases h
  rfl

theorem typeless_inert : Inert (.plain Unit) typeless (fun _ _ => ())
    fun _ p => p.NoArray ∧ p.ownType? = none where
  inOrder h := h.inOrder And.left
  expr _ h := h
  stmt _ h := h.single
  param hp h := ⟨(congrArg untyped h.1).trans (untyped_of_none hp.head.2), rfl⟩
  closure _ h := h
  clause _ h := h
  method _ h := h
  cls _ h := h
  iface _ h := h

theorem guardsFrom_of_none {owner : String} {ps : List Param} (h : ∀ p ∈ ps, p.type = none) (i : Nat) :
    guardsFrom owner i ps = [] := by
  induction ps generalizing i with
  | nil => rfl
  | cons p ps ih =>
    obtain ⟨hp, hps⟩ := List.forall_mem_cons.1 h
    simp [guardsFrom, hp, ih hps]

theorem map_untyped {ps : List Param} (h : ∀ p ∈ ps, p.type = none) : ps.map untyped = ps :=
  (List.map_congr_left fun p hp => untyped_of_none (h p hp)).trans (List.map_id _)

theorem guarded_closure {owner : String} {c : Closure} (h : ∀ p ∈ c.params, p.type = none) :
    { c with params := c.params.map untyped, body := guards owner c.params ++ c.body } = c := by
  obtain ⟨ps, cs, body, _, _, _⟩ := c
  simp only [map_untyped h, guards, guardsFrom_of_none h, List.nil_append]

theorem guarded_method {owner : String} {m : Method} (h : ∀ p ∈ m.params, p.type = none) :
    { m with params := m.params.map untyped, body := m.body.map (guards owner m.params ++ ·) } = m := by
  obtain ⟨n, ps, body, _, _, _, _⟩ := m
  simp only [map_untyped h, guards, guardsFrom_of_none h, List.nil_append, Option.map_id']

/-- Where the parameters below a part stand. -/
def placeBelow (si : String) (k : Place) : Part → Place
  | .cls c => ⟨c.lists si, some c.qualifiedName⟩
  | _ => k

theorem typeGuards_inert (si : String) : Inert (.reading Place (.plain Unit)) (typeGuards si) (placeBelow si)
    fun k p => p.NoArray ∧ (k.inScript = false → p.ownType? = none) where
  inOrder h := h.inOrder And.left
  expr _ h := h
  stmt _ h := h.single
  param _ h := h
  closure {k c act} hc h := by
    refine Logic.Leaves.bind h ?_
    obtain ⟨_ | _, cls⟩ := k
    · exact ⟨guarded_closure fun p hp =>
        (hc.child (List.mem_append_left _ (List.mem_map_of_mem hp))).head.2 rfl, rfl⟩
    · exact ⟨rfl, rfl⟩
  clause _ h := h
  method {k m act} hm h := by
    refine Logic.Leaves.bind h ?_
    obtain ⟨_ | _, cls⟩ := k
    · exact ⟨guarded_method fun p hp =>
        (hm.child (List.mem_append_left _ (List.mem_map_of_mem hp))).head.2 rfl, rfl⟩
    · exact ⟨rfl, rfl⟩
  cls _ h := ⟨h.1, rfl⟩
  iface _ h := h

/-! ## Arrays and initial values -/

theorem arrays_inert : Inert (.succeeding Fault Unit) arrays (fun _ _ => ()) fun _ => Part.NoArray where
  inOrder h := h.inOrder id
  expr {_ e _} he h := .bind h <| by
    cases e with
    | index => exact he.head.elim
    | _ => exact .pure
  stmt {_ s _} hs h := .bind h <| by
    cases s with
    | foreach => exact hs.head.elim
    | _ => exact .pure
  param _ h := h
  closure _ h := h
  clause _ h := h
  method _ h := h
  cls _ h := h
  iface _ h := h

theorem initialised_of_settled {bound : List String} {body : List Stmt} (h : Settled bound body) :
    initialised bound body = body := by
  have hnone : undefinedIn bound body = [] := by
    refine List.filter_eq_nil_iff.2 fun v hv => ?_
    rcases h v (List.mem_eraseDups.1 hv) with hbound | hdefined
    · simp [hbound]
    · simp [hdefined]
  rw [initialised, hnone]
  rfl

theorem initialisedMethod_of_settled {m : Method} (h : Settled (Part.method m).bound (Part.method m).body) :
    initialisedMethod m = m := by
  obtain ⟨n, ps, body, _, _, _, _⟩ := m
  cases body with
  | none => rfl
  | some body =>
    have hbody : initialised (ps.map (·.name)) body = body := initialised_of_settled h
    simp only [initialisedMethod, Option.map_some, hbody]

theorem initialisedClosure_of_settled {c : Closure}
    (h : c.isIteration = false → Settled (Part.closure c).bound c.body) : initialisedClosure c = c := by
  obtain ⟨ps, cs, body, _, _, iteration⟩ := c
  cases iteration with
  | true => rfl
  | false =>
    have hbody : initialised (ps.map (·.name) ++ cs.map (·.name)) body = body := initialised_of_settled (h rfl)
    simp only [initialisedClosure, Bool.false_eq_true, if_false, hbody]

theorem initialisers_inert : Inert (.plain Unit) initialisers (fun _ _ => ())
    fun _ p => p.NoArray ∧ (p.isFunction = true → Settled p.bound p.body) where
  inOrder h := h.inOrder And.left
  expr _ h := h
  stmt _ h := h.single
  param _ h := h
  closure hc h := ⟨(congrArg initialisedClosure h.1).trans
    (initialisedClosure_of_settled fun hi => hc.head.2 (by simp [Part.isFunction, hi])), rfl⟩
  clause _ h := h
  method hm h := ⟨(congrArg initialisedMethod h.1).trans (initialisedMethod_of_settled (hm.head.2 rfl)), rfl⟩
  cls _ h := h
  iface _ h := h

end Simplify

end ClassScript
