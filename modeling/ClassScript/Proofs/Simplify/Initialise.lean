import ClassScript.Proofs.Tree.Throughout
import ClassScript.Simplify
/-!
# Initial values

The pass for initial values keeps every shape that admits an assignment of null at the start of a
function (`initialisers_sound`). Behind it, a function defines what it mentions
(`initialisers_settled`).
-/

namespace ClassScript

/-- A part with variables of its own: a method, or a closure that is no iteration callback. -/
def Part.isFunction : Part → Bool
  | .method _ => true
  | .closure c => !c.isIteration
  | _ => false

/-- The variables that a function starts with. -/
def Part.bound : Part → List String
  | .method m => m.params.map (·.name)
  | .closure c => c.params.map (·.name) ++ c.captures.map (·.name)
  | _ => []

/-- The statements of a function. -/
def Part.body : Part → List Stmt
  | .method m => m.body.getD []
  | .closure c => c.body
  | _ => []

namespace Simplify

/-- The assignment that gives a variable its initial value. -/
def nullAssignment (pos : Position) (name : String) : Stmt :=
  .expression (.assign pos (.var pos name) (.null pos) none)

/-- The shape admits initial values in functions. -/
def AdmitsInitialisers {β : Type} (r : Shape β) : Prop :=
  ∀ {b p pos name}, p.isFunction = true → Throughout r (r.enter b p) (.stmt (nullAssignment pos name))

section Initialisers

variable {β : Type} {r : Shape β} (hr : AdmitsInitialisers r) {b : β}

include hr

theorem initialised_throughout {f : Part} (hf : f.isFunction = true) {bound : List String}
    {body : List Stmt} (h : ∀ s ∈ body, Throughout r (r.enter b f) (.stmt s)) :
    ∀ s ∈ initialised bound body, Throughout r (r.enter b f) (.stmt s) := by
  intro s hs
  rcases List.mem_append.1 hs with hs | hs
  · obtain ⟨name, -, rfl⟩ := List.mem_map.1 hs
    exact hr hf
  · exact h s hs

theorem initialisedMethod_throughout {m : Method} (h : r.holds b (.method m))
    (hcs : ∀ c ∈ (Part.method m).children, Throughout r (r.enter b (.method m)) c) :
    Throughout r b (.method (initialisedMethod m)) := by
  have hbare : (Part.method (initialisedMethod m)).bare = (Part.method m).bare := by
    simp only [Part.bare, initialisedMethod, Option.map_map]
    rfl
  refine throughout_iff.2 ⟨(r.holds_congr hbare).2 h, ?_⟩
  rw [r.enter_congr hbare]
  intro c hc
  rcases List.mem_append.1 hc with hc | hc
  · exact hcs c (List.mem_append_left _ hc)
  · obtain ⟨n, ps, body, _, _, _, _⟩ := m
    cases body with
    | none => cases hc
    | some body =>
      obtain ⟨s, hs, rfl⟩ := List.mem_map.1 hc
      refine initialised_throughout hr rfl (fun s hs => ?_) s hs
      exact hcs _ (List.mem_append_right _ (List.mem_map_of_mem hs))

theorem initialisedClosure_throughout {c : Closure} (h : r.holds b (.closure c))
    (hcs : ∀ q ∈ (Part.closure c).children, Throughout r (r.enter b (.closure c)) q) :
    Throughout r b (.closure (initialisedClosure c)) := by
  cases hc : c.isIteration with
  | true =>
    rw [initialisedClosure, if_pos hc]
    exact throughout_iff.2 ⟨h, hcs⟩
  | false =>
    have hbare : (Part.closure (initialisedClosure c)).bare = (Part.closure c).bare := by
      simp [Part.bare, initialisedClosure, hc]
    refine throughout_iff.2 ⟨(r.holds_congr hbare).2 h, ?_⟩
    rw [r.enter_congr hbare]
    intro q hq
    simp only [initialisedClosure, hc, Bool.false_eq_true, if_false] at hq
    rcases List.mem_append.1 hq with hq | hq
    · exact hcs q (List.mem_append_left _ hq)
    · obtain ⟨s, hs, rfl⟩ := List.mem_map.1 hq
      refine initialised_throughout hr (by simp [Part.isFunction, hc]) (fun s hs => ?_) s hs
      exact hcs _ (List.mem_append_right _ (List.mem_map_of_mem hs))

theorem initialisers_sound : Sound (.plain Unit) initialisers (Turned r r)
    fun k e e' k' => Rebuilt (Turned r r) k (.expr e) (.expr e') k' where
  below _ h := h
  array hvs := Rebuilt.array (VisitsItem.mapM hvs _)
  store hv := hv.inOrder _
  expr h := .rebuilt (h _) rfl id
  stmt h := .rebuilt (h _) rfl id
  param h := .rebuilt (h _) rfl id
  closure h := Carried.edited (h _) rfl (fun _ => trivial) fun _ => initialisedClosure_throughout hr
  clause h := .rebuilt (h _) rfl id
  method h := Carried.edited (h _) rfl (fun _ => trivial) fun _ => initialisedMethod_throughout hr
  cls h := .rebuilt (h _) rfl id
  iface h := .rebuilt (h _) rfl id

end Initialisers

/-! ## What functions mention -/

namespace Usage

theorem mem_mentions_concat {us : List Usage} {v : String} :
    v ∈ (concat us).mentions ↔ ∃ u ∈ us, v ∈ u.mentions := by
  induction us with
  | nil => simp [concat]
  | cons u us ih => simpa [concat, append] using or_congr_right ih

theorem mem_defines_concat {us : List Usage} {v : String} :
    v ∈ (concat us).defines ↔ ∃ u ∈ us, v ∈ u.defines := by
  induction us with
  | nil => simp [concat]
  | cons u us ih => simpa [concat, append] using or_congr_right ih

theorem fold_nullAssignment (pos : Position) (name : String) :
    (Part.stmt (nullAssignment pos name)).fold ofPart = ⟨[name], [name]⟩ := by
  rw [Part.fold_eq]
  simp only [Part.children, Part.ofStmt, nullAssignment, List.map_cons, List.map_nil]
  rw [Part.fold_eq]
  simp only [Part.children, Part.ofExpr, List.map_cons, List.map_nil]
  rw [Part.fold_eq, Part.fold_eq]
  rfl

end Usage

theorem mem_mentions_usage {ss : List Stmt} {v : String} :
    v ∈ (usage ss).mentions ↔ ∃ s ∈ ss, v ∈ ((Part.stmt s).fold Usage.ofPart).mentions := by
  simp [usage, Usage.mem_mentions_concat, Part.stmts]

theorem mem_defines_usage {ss : List Stmt} {v : String} :
    v ∈ (usage ss).defines ↔ ∃ s ∈ ss, v ∈ ((Part.stmt s).fold Usage.ofPart).defines := by
  simp [usage, Usage.mem_defines_concat, Part.stmts]

/-- Whatever the body of a function mentions, it starts with or defines. -/
def Settled (bound : List String) (body : List Stmt) : Prop :=
  ∀ v ∈ (usage body).mentions, v ∈ bound ∨ v ∈ (usage body).defines

theorem initialised_settled (bound : List String) (body : List Stmt) :
    Settled bound (initialised bound body) := by
  intro v hv
  have hnew (hund : v ∈ undefinedIn bound body) :
      v ∈ (usage (initialised bound body)).defines := by
    refine mem_defines_usage.2 ⟨_, List.mem_append_left _ (List.mem_map_of_mem hund), ?_⟩
    exact Usage.fold_nullAssignment _ v ▸ List.mem_singleton_self v
  obtain ⟨s, hs, hv⟩ := mem_mentions_usage.1 hv
  rcases List.mem_append.1 hs with hs | hs
  · obtain ⟨name, hname, rfl⟩ := List.mem_map.1 hs
    change v ∈ ((Part.stmt (nullAssignment _ name)).fold Usage.ofPart).mentions at hv
    rw [Usage.fold_nullAssignment] at hv
    obtain rfl := List.mem_singleton.1 hv
    exact .inr (hnew hname)
  · by_cases hbound : v ∈ bound
    · exact .inl hbound
    · refine .inr ?_
      by_cases hdefined : v ∈ (usage body).defines
      · obtain ⟨t, ht, hvt⟩ := mem_defines_usage.1 hdefined
        exact mem_defines_usage.2 ⟨t, List.mem_append_right _ ht, hvt⟩
      · refine hnew (List.mem_filter.2 ⟨?_, by simp [hbound, hdefined]⟩)
        exact List.mem_eraseDups.2 (mem_mentions_usage.2 ⟨s, hs, hv⟩)

/-- Whatever the functions in a part mention, they start with or define. -/
def AllSettled (p : Part) : Prop := ∀ q ∈ p.all, q.isFunction = true → Settled q.bound q.body

theorem allSettled_iff {p : Part} : AllSettled p ↔
    (p.isFunction = true → Settled p.bound p.body) ∧ ∀ c ∈ p.children, AllSettled c := forall_mem_all_iff

theorem allSettled_nullAssignment (pos : Position) (name : String) :
    AllSettled (.stmt (nullAssignment pos name)) := by
  refine allSettled_iff.2 ⟨nofun, ?_⟩
  rintro _ (_ | ⟨_, ⟨⟩⟩)
  refine allSettled_iff.2 ⟨nofun, ?_⟩
  rintro _ (_ | ⟨_, _ | ⟨_, ⟨⟩⟩⟩) <;> exact allSettled_iff.2 ⟨nofun, nofun⟩

theorem allSettled_initialised {bound : List String} {body : List Stmt}
    (h : ∀ s ∈ body, AllSettled (.stmt s)) : ∀ s ∈ initialised bound body, AllSettled (.stmt s) := by
  intro s hs
  rcases List.mem_append.1 hs with hs | hs
  · obtain ⟨name, -, rfl⟩ := List.mem_map.1 hs
    exact allSettled_nullAssignment _ name
  · exact h s hs

theorem allSettled_initialisedMethod {m : Method} (h : ∀ c ∈ (Part.method m).children, AllSettled c) :
    AllSettled (.method (initialisedMethod m)) := by
  obtain ⟨n, ps, body, r, mo, re, pos⟩ := m
  obtain ⟨hps, hbody⟩ := List.forall_mem_append.1 h
  cases body with
  | none => exact allSettled_iff.2 ⟨fun _ _ => nofun, List.forall_mem_append.2 ⟨hps, nofun⟩⟩
  | some body =>
    refine allSettled_iff.2 ⟨fun _ => initialised_settled _ body, List.forall_mem_append.2 ⟨hps, ?_⟩⟩
    exact List.forall_mem_map.2 (allSettled_initialised (List.forall_mem_map.1 hbody))

theorem allSettled_initialisedClosure {c : Closure} (h : ∀ q ∈ (Part.closure c).children, AllSettled q) :
    AllSettled (.closure (initialisedClosure c)) := by
  obtain ⟨ps, cs, body, r, st, iteration⟩ := c
  obtain ⟨hps, hbody⟩ := List.forall_mem_append.1 h
  cases iteration with
  | true => exact allSettled_iff.2 ⟨nofun, h⟩
  | false =>
    refine allSettled_iff.2 ⟨fun _ => initialised_settled _ body, List.forall_mem_append.2 ⟨hps, ?_⟩⟩
    exact List.forall_mem_map.2 (allSettled_initialised (List.forall_mem_map.1 hbody))

/-- All that a part becomes is settled. -/
def Settles (_ : Unit) (_ : Part) (ps : List Part) (_ : Unit) : Prop := ∀ p ∈ ps, AllSettled p

theorem Settles.ofRebuilt {p p' q : Part} (h : Rebuilt Settles () p p' ())
    (hq : (∀ c ∈ p'.children, AllSettled c) → AllSettled q) : Settles () p [q] () := by
  refine List.forall_mem_singleton.2 (hq fun c hc => ?_)
  obtain ⟨_, -, _, hsettles, hmem⟩ := h.children.mem_of_same (fun _ => rfl) hc
  exact hsettles c hmem

theorem Settles.rebuilt {p p' : Part} (h : Rebuilt Settles () p p' ()) (hp : p'.isFunction = false) :
    Settles () p [p'] () :=
  .ofRebuilt h fun hcs => allSettled_iff.2 ⟨fun hfun => absurd (hp.symm.trans hfun) nofun, hcs⟩

/-- Behind the pass, every function starts with or defines what it mentions. -/
theorem initialisers_settled : Sound (.plain Unit) initialisers Settles
    fun k e e' k' => Rebuilt Settles k (.expr e) (.expr e') k' where
  below _ h := h
  array hvs := Rebuilt.array (VisitsItem.mapM hvs _)
  store hv := hv.inOrder _
  expr h := .rebuilt (h _) rfl
  stmt h := .rebuilt (h _) rfl
  param h := .rebuilt (h _) rfl
  closure h := .ofRebuilt (h _) allSettled_initialisedClosure
  clause h := .rebuilt (h _) rfl
  method h := .ofRebuilt (h _) allSettled_initialisedMethod
  cls h := .rebuilt (h _) rfl
  iface h := .rebuilt (h _) rfl

end Simplify

/-- Every function of a simplified file starts with or defines what it mentions. -/
theorem SourceFile.simplify_settled {pipeline : Pipeline} {si : String} {f g : SourceFile}
    (h : f.simplify pipeline si = .ok g) :
    ∀ q ∈ g.parts, q.isFunction = true → Simplify.Settled q.bound q.body := by
  unfold simplify at h
  split at h
  · next hok =>
    cases h
    obtain ⟨_, -, hok⟩ := bind_eq_ok.1 hok
    obtain ⟨listed, -, hok⟩ := bind_eq_ok.1 hok
    cases hok
    intro q hq
    obtain ⟨p, hp, hq⟩ := List.mem_flatMap.1 hq
    have hchunks := (Simplify.initialisers_settled.stmts listed ()).chunks
    obtain ⟨_, -, _, hsettles, hmem⟩ := hchunks.mem_of_same (fun _ => rfl) hp
    exact hsettles p hmem q hq
  · cases h

end ClassScript
