import ClassScript.Proofs.Simplify.NormalForm
import ClassScript.Proofs.Tree.Inert
/-!
# Classes and their namespaces

Behind the pass that resolves names, each class and interface has the name that its namespace gives it
(`names_placed`). The passes behind it keep that, for namespaces stay and whatever comes into the tree declares
nothing (`statements_placed`).

A shape makes no context of statements, so this is a change of its own and not a shape that passes turn.
-/

namespace ClassScript

/-! ## Placed parts -/

/-- The namespace of what stands below a part. -/
def Part.namespaceBelow (ns : Option Name) : Part → Option Name
  | .stmt (.nsBlock _ n _ _) => n
  | _ => ns

/-- A class or interface has the name that its namespace gives it. -/
def Part.NamedIn (ns : Option Name) : Part → Prop
  | .cls c => c.qualified = some (({ namespaceName := ns } : Scope).qualify c.name)
  | .iface i => i.qualified = some (({ namespaceName := ns } : Scope).qualify i.name)
  | _ => True

/-- All classes and interfaces in a part have the names that their namespaces give them. -/
abbrev Placed (ns : Option Name) (p : Part) : Prop := Everywhere Part.namespaceBelow Part.NamedIn ns p

/-- A part that declares a class, an interface or a namespace. -/
def Part.declares : Part → Bool
  | .stmt (.nsBlock ..) | .cls _ | .iface _ => true
  | _ => false

section Placed

variable {ns : Option Name} {p : Part}

theorem Part.namespaceBelow_of_declares (ns : Option Name) (h : p.declares = false) :
    p.namespaceBelow ns = ns := by
  cases p with
  | stmt s =>
    cases s with
    | nsBlock => cases h
    | _ => rfl
  | _ => rfl

theorem placed_of_children (h : p.declares = false) (hcs : ∀ c ∈ p.children, Placed ns c) : Placed ns p := by
  refine everywhere_iff.2 ⟨?_, (Part.namespaceBelow_of_declares ns h).symm ▸ hcs⟩
  cases p with
  | cls | iface => cases h
  | _ => trivial

theorem Placed.children (h : Placed ns p) (hp : p.declares = false) : ∀ c ∈ p.children, Placed ns c :=
  fun _ hc => Part.namespaceBelow_of_declares ns hp ▸ h.child hc

/-- With the same parts below and nothing declared, nothing changes. -/
theorem Placed.of_children {q : Part} (h : Placed ns p) (hp : p.declares = false) (hq : q.declares = false)
    (hcs : q.children = p.children) : Placed ns q := placed_of_children hq (hcs ▸ h.children hp)

theorem placed_of_all (h : ∀ q ∈ p.all, q.declares = false) : Placed ns p := by
  induction p using Part.induction with
  | step p ih =>
    obtain ⟨hp, hcs⟩ := forall_mem_all_iff.1 h
    exact placed_of_children hp fun c hc => ih c hc (hcs c hc)

/-- Nothing is declared. -/
def undeclaring : Shape Unit where
  enter _ _ := ()
  holds _ p := p.declares = false
  enter_expr _ _ := rfl
  enter_stmt _ _ := rfl
  enter_param _ _ := rfl
  enter_bare _ _ := rfl
  holds_bare _ p := by
    cases p with
    | stmt s => cases s <;> rfl
    | _ => rfl

theorem Throughout.placed (h : Throughout (undeclaring.untyped fun _ => false) () p) : Placed ns p :=
  placed_of_all (h.all And.left)

end Placed

/-! ## Passes that keep places -/

/-- What a part becomes is placed where the part is. -/
structure Placing {κ : Type} (k : κ) (p : Part) (ps : List Part) (k' : κ) : Prop where
  each : ∀ {ns}, Placed ns p → ∀ p' ∈ ps, Placed ns p'

section Placing

variable {κ : Type} {k k' : κ} {ns : Option Name} {p p' q : Part}

theorem Rebuilt.namespaceBelow_eq {R : Change κ} (h : Rebuilt R k p p' k') :
    p'.namespaceBelow ns = p.namespaceBelow ns := by cases h <;> rfl

theorem Rebuilt.declares_eq {R : Change κ} (h : Rebuilt R k p p' k') : p'.declares = p.declares := by
  cases h <;> rfl

theorem Rebuilt.namedIn_iff {R : Change κ} (h : Rebuilt R k p p' k') : p'.NamedIn ns ↔ p.NamedIn ns := by
  cases h <;> rfl

theorem Chunks.placed {ps ps' : List Part} (h : Chunks Placing k ps ps' k') (hps : ∀ p ∈ ps, Placed ns p) :
    ∀ p' ∈ ps', Placed ns p' := by
  induction h with
  | nil => nofun
  | cons h _ ih =>
    obtain ⟨hp, hps⟩ := List.forall_mem_cons.1 hps
    exact List.forall_mem_append.2 ⟨h.each hp, ih hps⟩

theorem Rebuilt.placed (h : Rebuilt Placing k p p' k') (hp : Placed ns p) : Placed ns p' := by
  refine everywhere_iff.2 ⟨h.namedIn_iff.2 hp.head, h.children.placed ?_⟩
  rw [h.namespaceBelow_eq]
  exact fun c hc => hp.child hc

theorem Placing.edited (h : Rebuilt Placing k p p' k') (hq : ∀ {ns}, Placed ns p' → Placed ns q) :
    Placing k p [q] k' := ⟨fun hp => List.forall_mem_singleton.2 (hq (h.placed hp))⟩

theorem Placing.rebuilt (h : Rebuilt Placing k p p' k') : Placing k p [p'] k' := .edited h id

/-- It does not matter where the part was met. -/
theorem Placing.elsewhere {ps : List Part} (h : Placing k p ps k') (k₁ k₂ : κ) : Placing k₁ p ps k₂ := ⟨h.each⟩

theorem Placing.ofStmts {ss ss' : List Stmt} (h : Change.Stmts Placing k ss ss' k')
    (hss : ∀ s ∈ ss, Placed ns (.stmt s)) : ∀ s ∈ ss', Placed ns (.stmt s) :=
  List.forall_mem_map.1 (h.chunks.placed (List.forall_mem_map.2 hss))

end Placing

namespace Simplify

variable {ns : Option Name}

/-! ## Imports, `self` and `parent`, compound assignments -/

theorem imports_placing : Sound (.plain Unit) imports Placing
    fun k e e' k' => Rebuilt Placing k (.expr e) (.expr e') k' where
  below _ h := h
  array hvs := Rebuilt.array (VisitsItem.mapM hvs _)
  store hv := hv.inOrder _
  expr h := .rebuilt (h _)
  stmt {_ st _} h := by
    cases st with
    | imports => exact ⟨fun _ => nofun⟩
    | _ => exact .rebuilt (h _)
  param h := .rebuilt (h _)
  closure h := .rebuilt (h _)
  clause h := .rebuilt (h _)
  method h := .rebuilt (h _)
  cls h := .rebuilt (h _)
  iface h := .rebuilt (h _)

theorem Resolves.placed {e e' : Expr} (h : Resolves e e') (he : Placed ns (.expr e)) : Placed ns (.expr e') := by
  refine placed_of_children rfl fun c hc => ?_
  rcases h.children c hc with hc | ⟨p, rfl⟩
  · exact he.children rfl c hc
  · exact placed_of_children rfl nofun

theorem owners_placing : Sound (.reading Owner (.unlessFailed Fault Unit)) owners Placing
    fun k e e' k' => Rebuilt Placing k (.expr e) (.expr e') k' where
  below _ h := h
  array hvs := Logic.map _ (VisitsItem.mapM hvs _) fun _ _ h => .array h
  store hv := hv.inOrder _
  expr h := Logic.bind _ (h _) fun _ _ he' _ hok => .edited he' (Owner.resolves hok).placed
  stmt h := Logic.bind _ (h _) fun _ _ hst => Logic.pure _ (.rebuilt hst)
  param h := Logic.weaken _ (h _) fun _ _ => .rebuilt
  closure h := Logic.weaken _ (h _) fun _ _ => .rebuilt
  clause h := Logic.weaken _ (h _) fun _ _ => .rebuilt
  method h := Logic.weaken _ (h _) fun _ _ => .rebuilt
  cls h _ hc := (Placing.rebuilt (h _ _ hc)).elsewhere _ _
  iface h _ hi := (Placing.rebuilt (h _ _ hi)).elsewhere _ _

theorem plainAssign_placed {e : Expr} (h : Placed ns (.expr e)) : Placed ns (.expr (plainAssign e)) := by
  have hcs := h.children rfl
  have binary {p op l r} (hl : Placed ns (.expr l)) (hr : Placed ns (.expr r)) :
      Placed ns (.expr (.binary p op l r)) :=
    placed_of_children rfl (by rintro c (_ | ⟨_, _ | ⟨_, ⟨⟩⟩⟩) <;> assumption)
  cases e with
  | assignOp p op t v =>
    have ht := hcs (.expr t) (.head _)
    refine placed_of_children rfl ?_
    rintro c (_ | ⟨_, _ | ⟨_, ⟨⟩⟩⟩)
    · exact ht
    · exact binary ht (hcs (.expr v) (.tail _ (.head _)))
  | step p op t =>
    have ht := hcs (.expr t) (.head _)
    refine placed_of_children rfl ?_
    rintro c (_ | ⟨_, _ | ⟨_, ⟨⟩⟩⟩)
    · exact ht
    · exact binary ht (placed_of_children rfl nofun)
  | _ => exact h

theorem compound_placing : Sound (.plain Unit) compound Placing
    fun k e e' k' => Rebuilt Placing k (.expr e) (.expr e') k' where
  below _ h := h
  array hvs := Rebuilt.array (VisitsItem.mapM hvs _)
  store hv := hv.inOrder _
  expr h := .edited (h _) plainAssign_placed
  stmt h := .rebuilt (h _)
  param h := .rebuilt (h _)
  closure h := .rebuilt (h _)
  clause h := .rebuilt (h _)
  method h := .rebuilt (h _)
  cls h := .rebuilt (h _)
  iface h := .rebuilt (h _)

/-! ## Types -/

theorem untyped_placed {q : Param} (h : Placed ns (.param q)) : Placed ns (.param (untyped q)) :=
  h.of_children rfl rfl rfl

theorem typeless_placing : Sound (.plain Unit) typeless Placing
    fun k e e' k' => Rebuilt Placing k (.expr e) (.expr e') k' where
  below _ h := h
  array hvs := Rebuilt.array (VisitsItem.mapM hvs _)
  store hv := hv.inOrder _
  expr h := .rebuilt (h _)
  stmt h := .rebuilt (h _)
  param h := .edited (h _) untyped_placed
  closure h := .rebuilt (h _)
  clause h := .rebuilt (h _)
  method h := .rebuilt (h _)
  cls h := .rebuilt (h _)
  iface h := .rebuilt (h _)

theorem admitsGuards_undeclaring : AdmitsGuards undeclaring := by constructor <;> intros <;> rfl

theorem guarded_placed (owner : String) {ps : List Param} {body : List Stmt}
    (h : ∀ c ∈ ps.map Part.param ++ Part.stmts body, Placed ns c) :
    ∀ c ∈ (ps.map untyped).map Part.param ++ Part.stmts (guards owner ps ++ body), Placed ns c := by
  obtain ⟨hps, hbody⟩ := List.forall_mem_append.1 h
  rw [Part.stmts, List.map_append, List.map_map]
  refine List.forall_mem_append.2 ⟨List.forall_mem_map.2 fun q hq => ?_, List.forall_mem_append.2 ⟨?_, hbody⟩⟩
  · exact untyped_placed (hps _ (List.mem_map_of_mem hq))
  · refine List.forall_mem_map.2 fun s hs => Throughout.placed ?_
    exact guardsFrom_throughout admitsGuards_undeclaring (fun _ _ => rfl) 0 s hs

theorem guardedMethod_placed {owner : String} {m : Method} (h : Placed ns (.method m)) :
    Placed ns (.method { m with
      params := m.params.map untyped
      body := m.body.map (guards owner m.params ++ ·) }) := by
  obtain ⟨n, ps, body, _, _, _, _⟩ := m
  have hcs := guarded_placed owner (h.children rfl)
  cases body with
  | none => exact placed_of_children rfl (List.forall_mem_append.2 ⟨(List.forall_mem_append.1 hcs).1, nofun⟩)
  | some body => exact placed_of_children rfl hcs

theorem typeGuards_placing (si : String) : Sound (.reading Place (.plain Unit)) (typeGuards si) Placing
    fun k e e' k' => Rebuilt Placing k (.expr e) (.expr e') k' where
  below _ h := h
  array hvs := Logic.map _ (VisitsItem.mapM hvs _) fun _ _ h => .array h
  store hv := hv.inOrder _
  expr h := .rebuilt (h _)
  stmt h := .rebuilt (h _)
  param h := .rebuilt (h _)
  clause h := .rebuilt (h _)
  closure h := Logic.bind _ (h _) fun c k' hc => by
    obtain ⟨_ | _, cls⟩ := k'
    · exact .edited hc fun hplaced => placed_of_children rfl (guarded_placed _ (hplaced.children rfl))
    · exact .rebuilt hc
  method h := Logic.bind _ (h _) fun m k' hm => by
    obtain ⟨_ | _, cls⟩ := k'
    · exact .edited hm guardedMethod_placed
    · exact .rebuilt hm
  cls h := (Placing.rebuilt (h _)).elsewhere _ _
  iface h := .rebuilt (h _)

/-! ## Arrays and loops -/

theorem callMethod_placed {p : Position} {o : Expr} {n : String} {as : List Expr} (ho : Placed ns (.expr o))
    (has : ∀ a ∈ as, Placed ns (.expr a)) : Placed ns (.expr (callMethod p o n as)) := by
  refine placed_of_children rfl fun c hc => ?_
  rcases mem_children_callMethod.1 hc with rfl | ⟨a, ha, rfl⟩
  · exact ho
  · exact has a ha

theorem callbackBody_placing : Sound (.reading Nat (.unlessFailed Fault Unit)) callbackBody Placing
    fun k e e' k' => Rebuilt Placing k (.expr e) (.expr e') k' where
  below _ h := h
  array hvs := Logic.map _ (VisitsItem.mapM hvs _) fun _ _ h => .array h
  store hv := hv.inOrder _
  expr h := Logic.bind _ (h _) fun e₁ k₁ he₁ => by
    have hmarked : Placing _ _ [.expr (inCallback e₁)] k₁ :=
      .edited he₁ fun h => h.of_children rfl rfl (inCallback_children e₁)
    cases e₁ with
    | assign p t v d => cases t <;> exact Logic.pure _ hmarked
    | _ => exact Logic.pure _ hmarked
  stmt {k st _} h := by
    cases st with
    | continueLoop p =>
      cases k with
      | zero =>
        rintro _ ⟨⟩
        exact ⟨fun _ => List.forall_mem_singleton.2 (placed_of_children rfl nofun)⟩
      | succ k =>
        rintro _ ⟨⟩
        exact .rebuilt (.leaf rfl)
    | breakLoop p =>
      cases k with
      | zero =>
        rintro _ ⟨⟩
        refine ⟨fun _ => List.forall_mem_singleton.2 (placed_of_children rfl ?_)⟩
        exact List.forall_mem_singleton.2 (placed_of_children rfl nofun)
      | succ k =>
        rintro _ ⟨⟩
        exact .rebuilt (.leaf rfl)
    | ret p v => exact fun _ => nofun
    | whileLoop | forLoop =>
      have loop := (Logic.reading Nat (.unlessFailed Fault Unit)).weaken (h (k + 1)) fun _ _ hst =>
        (Placing.rebuilt hst).elsewhere k k
      exact Logic.bind _ loop fun _ _ hst => Logic.pure _ hst
    | _ => exact Logic.bind _ (h _) fun _ _ hst => Logic.pure _ (.rebuilt hst)
  param h := Logic.weaken _ (h _) fun _ _ => .rebuilt
  closure h := Logic.pure _ ⟨fun hc => List.forall_mem_singleton.2 hc⟩
  clause h := Logic.weaken _ (h _) fun _ _ => .rebuilt
  method h := Logic.weaken _ (h _) fun _ _ => .rebuilt
  cls h := Logic.weaken _ (h _) fun _ _ => .rebuilt
  iface h := Logic.weaken _ (h _) fun _ _ => .rebuilt

theorem iteration_placed {p : Position} {subject : Expr} {key : Option Expr} {value : Expr} {byRef : Bool}
    {body : List Stmt} {s : Stmt} (h : iteration p subject key value body = .ok s)
    (hloop : Placed ns (.stmt (.foreach p subject key value byRef body))) : Placed ns (.stmt s) := by
  obtain ⟨hsubject, hcs⟩ := List.forall_mem_cons.1 (hloop.children rfl)
  have hbody := (List.forall_mem_cons.1 (List.forall_mem_append.1 hcs).2).2
  obtain ⟨ps, body', hps, hrun, rfl⟩ := iteration_ok h
  refine placed_of_children rfl (List.forall_mem_singleton.2 (callMethod_placed hsubject ?_))
  refine List.forall_mem_singleton.2 (placed_of_children rfl (List.forall_mem_singleton.2 ?_))
  refine placed_of_children rfl (List.forall_mem_append.2 ⟨List.forall_mem_map.2 fun q hq => ?_, ?_⟩)
  · refine placed_of_children rfl ?_
    simp [Part.children, (hps q hq).default, Part.exprs]
  · exact List.forall_mem_map.2
      (Placing.ofStmts (callbackBody_placing.stmts body 0 body' hrun) (List.forall_mem_map.1 hbody))

theorem intoCalls_placed : IntoCalls Placing (Placed ns <| .expr ·) (Placed ns <| .expr ·) where
  each h hp := h.each hp _ (.head _)
  sub hp hc := hp.children rfl _ (Part.expr_mem_children hc)
  call := callMethod_placed

theorem arrays_placing : Sound (.unlessFailed Fault Unit) arrays Placing
    fun k e e' k' => Placing k (.expr e) [.expr e'] k' where
  below _ h := .rebuilt h
  array hvs e' he' := ⟨fun hp => List.forall_mem_singleton.2 <|
    intoCalls_placed.addItems hvs he' (placed_of_children rfl nofun) fun _ hc =>
      hp.children rfl _ (Part.expr_mem_children hc)⟩
  store hv _ he' := ⟨fun hp => List.forall_mem_singleton.2 (intoCalls_placed.store hv he' hp)⟩
  expr h := Logic.bind _ (h _) fun e₁ _ he₁ => by
    cases e₁ with
    | index p a i =>
      cases i with
      | none => exact nofun
      | some i =>
        refine Logic.pure _ ⟨fun hp => List.forall_mem_singleton.2 ?_⟩
        have hcs := (he₁.each hp _ (.head _)).children rfl
        exact callMethod_placed (hcs _ (.head _)) (by simpa using hcs _ (.tail _ (.head _)))
    | _ => exact Logic.pure _ he₁
  stmt h := Logic.bind _ (h _) fun s₁ _ hs₁ => by
    cases s₁ with
    | foreach p subject key value byRef body =>
      cases byRef with
      | true => exact nofun
      | false =>
        intro ss hss
        obtain ⟨s, hs, hss⟩ := bind_eq_ok.1 hss
        cases hss
        exact .edited hs₁ (iteration_placed hs)
    | _ => exact Logic.pure _ (.rebuilt hs₁)
  param h := Logic.weaken _ (h _) fun _ _ => .rebuilt
  closure h := Logic.weaken _ (h _) fun _ _ => .rebuilt
  clause h := Logic.weaken _ (h _) fun _ _ => .rebuilt
  method h := Logic.weaken _ (h _) fun _ _ => .rebuilt
  cls h := Logic.weaken _ (h _) fun _ _ => .rebuilt
  iface h := Logic.weaken _ (h _) fun _ _ => .rebuilt

/-! ## Initial values -/

theorem initialised_placed {bound : List String} {body : List Stmt} (h : ∀ c ∈ Part.stmts body, Placed ns c) :
    ∀ c ∈ Part.stmts (initialised bound body), Placed ns c := by
  rw [initialised, Part.stmts, List.map_append, List.map_map]
  refine List.forall_mem_append.2 ⟨List.forall_mem_map.2 fun name _ => ?_, h⟩
  refine placed_of_children rfl (List.forall_mem_singleton.2 (placed_of_children rfl ?_))
  rintro _ (_ | ⟨_, _ | ⟨_, ⟨⟩⟩⟩) <;> exact placed_of_children rfl nofun

theorem initialisedMethod_placed {m : Method} (h : Placed ns (.method m)) :
    Placed ns (.method (initialisedMethod m)) := by
  obtain ⟨n, ps, body, _, _, _, _⟩ := m
  obtain ⟨hps, hbody⟩ := List.forall_mem_append.1 (h.children rfl)
  cases body with
  | none => exact h
  | some body => exact placed_of_children rfl (List.forall_mem_append.2 ⟨hps, initialised_placed hbody⟩)

theorem initialisedClosure_placed {c : Closure} (h : Placed ns (.closure c)) :
    Placed ns (.closure (initialisedClosure c)) := by
  obtain ⟨ps, cs, body, _, _, iteration⟩ := c
  obtain ⟨hps, hbody⟩ := List.forall_mem_append.1 (h.children rfl)
  cases iteration with
  | true => exact h
  | false => exact placed_of_children rfl (List.forall_mem_append.2 ⟨hps, initialised_placed hbody⟩)

theorem initialisers_placing : Sound (.plain Unit) initialisers Placing
    fun k e e' k' => Rebuilt Placing k (.expr e) (.expr e') k' where
  below _ h := h
  array hvs := Rebuilt.array (VisitsItem.mapM hvs _)
  store hv := hv.inOrder _
  expr h := .rebuilt (h _)
  stmt h := .rebuilt (h _)
  param h := .rebuilt (h _)
  closure h := .edited (h _) initialisedClosure_placed
  clause h := .rebuilt (h _)
  method h := .edited (h _) initialisedMethod_placed
  cls h := .rebuilt (h _)
  iface h := .rebuilt (h _)

/-! ## Names -/

/-- What a part becomes in a namespace is placed there. -/
structure Places (ns : Option Name) (p : Part) (ps : List Part) (ns' : Option Name) : Prop where
  same : ns' = ns
  each : ∀ p' ∈ ps, Placed ns p'

theorem children_placed {p p' : Part} {ns' : Option Name} (h : Rebuilt Places ns p p' ns') :
    ∀ c ∈ p'.children, Placed ns c := by
  intro c hc
  obtain ⟨_, -, _, hplaces, hmem⟩ := h.children.mem_of_same Places.same hc
  exact hplaces.each c hmem

theorem Places.edited {p p' q : Part} {ns' : Option Name} (h : Rebuilt Places ns p p' ns')
    (hq : (∀ c ∈ p'.children, Placed ns c) → Placed ns q) : Places ns p [q] ns' :=
  ⟨h.children.same Places.same, List.forall_mem_singleton.2 (hq (children_placed h))⟩

theorem Places.rebuilt {p p' : Part} {ns' : Option Name} (h : Rebuilt Places ns p p' ns')
    (hp : p.declares = false) : Places ns p [p'] ns' :=
  .edited h (placed_of_children (h.declares_eq.trans hp))

theorem namespace_placed {ns' ns₁ : Option Name} {p : Position} {b : List Stmt} {br : Bool} {s : Stmt}
    (h : Rebuilt Places ns' (.stmt (.nsBlock p ns' b br)) (.stmt s) ns₁) : Placed ns (.stmt s) := by
  refine everywhere_iff.2 ⟨trivial, ?_⟩
  rw [h.namespaceBelow_eq]
  exact children_placed h

theorem class_placed {s : Scope} {ns' : Option Name} {c c' : Class} (pa : Option Name) (is : List Name)
    (h : Rebuilt Places s.namespaceName (.cls c) (.cls c') ns') : Placed s.namespaceName
      (.cls { c' with qualified := some (s.qualify c.name), parent := pa, interfaces := is }) := by
  have hname : c'.name = c.name := by cases h <;> rfl
  have hcs := children_placed h
  refine everywhere_iff.2 ⟨?_, hcs⟩
  rw [Part.NamedIn, hname]
  rfl

theorem interface_placed {s : Scope} {ns' : Option Name} {i i' : Interface} (ps : List Name)
    (h : Rebuilt Places s.namespaceName (.iface i) (.iface i') ns') : Placed s.namespaceName
      (.iface { i' with qualified := some (s.qualify i.name), parents := ps }) := by
  have hname : i'.name = i.name := by cases h <;> rfl
  have hcs := children_placed h
  refine everywhere_iff.2 ⟨?_, hcs⟩
  rw [Part.NamedIn, hname]
  rfl

theorem namespaceName_importing (s : Scope) (is : List Import) :
    (is.foldl Scope.importing s).namespaceName = s.namespaceName := by
  induction is generalizing s with
  | nil => rfl
  | cons i is ih => exact ih (s.importing i)

theorem resolveStmt_placed (s : Scope) {st : Stmt} (hst : (Part.stmt st).declares = false)
    (h : ∀ c ∈ (Part.stmt st).children, Placed ns c) : Placed ns (.stmt (s.resolveStmt st)) := by
  cases st with
  | tryCatch p b cs f =>
    obtain ⟨hcs, hf⟩ := List.forall_mem_append.1 h
    obtain ⟨hb, hcs⟩ := List.forall_mem_append.1 hcs
    refine placed_of_children rfl (List.forall_mem_append.2 ⟨List.forall_mem_append.2 ⟨hb, ?_⟩, hf⟩)
    rw [List.map_map]
    refine List.forall_mem_map.2 fun c hc => ?_
    exact (hcs _ (List.mem_map_of_mem hc)).of_children rfl rfl rfl
  | _ => exact placed_of_children hst h

theorem names_places : Sound (.tracking fun ns s => s.namespaceName = ns) names Places
    fun k e e' k' => Rebuilt Places k (.expr e) (.expr e') k' where
  below _ h := h
  array hvs := Logic.map _ (VisitsItem.mapM hvs _) fun _ _ h => .array h
  store hv := hv.inOrder _
  expr h := Logic.bind _ (h _) fun e' k₁ he' s hs =>
    ⟨k₁, hs, .edited he' fun hcs => placed_of_children rfl (s.resolveExpr_children e' ▸ hcs)⟩
  stmt {ns st act} h := by
    cases st with
    | nsBlock p n b br =>
      intro s hs
      obtain ⟨_, -, hst⟩ := h n { s with namespaceName := n, aliases := [] } rfl
      exact ⟨ns, hs, rfl, List.forall_mem_singleton.2 (namespace_placed hst)⟩
    | imports p is =>
      intro s hs
      obtain ⟨k₁, hk₁, hst⟩ := h ns (is.foldl Scope.importing s) ((namespaceName_importing s is).trans hs)
      exact ⟨k₁, hk₁, .rebuilt hst rfl⟩
    | _ =>
      exact Logic.bind _ (h _) fun st' k₁ hst s hs => ⟨k₁, hs, .edited hst (resolveStmt_placed s hst.declares_eq)⟩
  param h s hs := by
    obtain ⟨k₁, hk₁, hp⟩ := h _ s hs
    exact ⟨k₁, hk₁, .edited hp fun hcs => placed_of_children rfl hcs⟩
  closure h := Logic.weaken _ (h _) fun _ _ hc => .rebuilt hc rfl
  clause h := Logic.weaken _ (h _) fun _ _ hc => .rebuilt hc rfl
  method h := Logic.weaken _ (h _) fun _ _ hm => .rebuilt hm rfl
  cls {_ c _} h s hs := by
    cases hs
    obtain ⟨k₁, hk₁, hc⟩ := h _ { s with owner := some (s.qualify c.name) } rfl
    exact ⟨k₁, hk₁, .edited hc fun _ => class_placed _ _ hc⟩
  iface {_ i _} h s hs := by
    cases hs
    obtain ⟨k₁, hk₁, hi⟩ := h _ { s with owner := some (s.qualify i.name) } rfl
    exact ⟨k₁, hk₁, .edited hi fun _ => interface_placed _ hi⟩

/-- Behind the pass that resolves names, classes and interfaces have the names that their namespaces give them. -/
theorem names_placed (ss : List Stmt) : ∀ s ∈ (resolveNames ss).1, Placed none (.stmt s) := by
  obtain ⟨_, -, hstmts⟩ := names_places.stmts ss none {} rfl
  intro s hs
  obtain ⟨_, -, _, hplaces, hmem⟩ := hstmts.chunks.mem_of_same Places.same (List.mem_map_of_mem hs)
  exact hplaces.each _ hmem

/-! ## The whole simplification -/

theorem types_placed (pipeline : Pipeline) (si : String) {ss : List Stmt} (h : ∀ s ∈ ss, Placed ns (.stmt s)) :
    ∀ s ∈ types pipeline si ss, Placed ns (.stmt s) := by
  cases pipeline with
  | full => exact Placing.ofStmts ((typeGuards_placing si).stmts ss {}) h
  | reduced => exact Placing.ofStmts (typeless_placing.stmts ss ()) h

theorem statements_placed {pipeline : Pipeline} {si : String} {ss out : List Stmt}
    (h : statements pipeline si ss = .ok out) : ∀ s ∈ out, Placed none (.stmt s) := by
  obtain ⟨plain, hplain, h⟩ := bind_eq_ok.1 h
  obtain ⟨listed, hlisted, h⟩ := bind_eq_ok.1 h
  obtain ⟨owned, howned, hplain⟩ := bind_eq_ok.1 hplain
  cases h
  cases hplain
  have himports := Placing.ofStmts (imports_placing.stmts _ ()) (names_placed ss)
  have howners := Placing.ofStmts (owners_placing.stmts _ {} owned howned) himports
  have hcompound := Placing.ofStmts (compound_placing.stmts owned ()) howners
  have harrays := Placing.ofStmts (arrays_placing.stmts _ () listed hlisted) (types_placed pipeline si hcompound)
  exact Placing.ofStmts (initialisers_placing.stmts listed ()) harrays

end Simplify

end ClassScript
