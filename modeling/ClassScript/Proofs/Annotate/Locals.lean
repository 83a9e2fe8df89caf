import ClassScript.Proofs.Annotate.Scope
import ClassScript.Proofs.Grammar.Statement
/-!
# No variable without a declaration

Three traversals have to agree on what a function is: the pass that makes callbacks of loops, the one
that gives initial values and the one that marks declarations. They do, as long as no class is
declared in a function: whatever a function mentions is bound in it, and each variable that only
assignments bind is declared by exactly one of them (`SourceFile.locals_declared`).
-/

namespace ClassScript

/-! ## Flat files -/

def Part.isCallback : Part → Bool
  | .closure c => c.isIteration
  | _ => false

def Part.isDeclaration : Part → Bool
  | .cls _ | .iface _ | .method _ => true
  | _ => false

/-- All parts below a part. -/
def Part.below (p : Part) : List Part := p.children.flatMap Part.all

/-- Classes and interfaces are declared outside of functions. -/
def SourceFile.Flat (f : SourceFile) : Prop :=
  ∀ p ∈ f.parts, p.takesParams = true → ∀ q ∈ p.below, q.isDeclaration = false

instance (f : SourceFile) : Decidable f.Flat := inferInstanceAs (Decidable (∀ p ∈ f.parts, _))

namespace Part

variable {p p' : Part}

theorem takesParams_eq (p : Part) : p.takesParams = (p.isFunction || p.isCallback) := by
  cases p <;> simp [takesParams, isFunction, isCallback]

theorem isFunction_unmarked (p : Part) : p.unmarked.isFunction = p.isFunction := by
  cases p with
  | expr e => cases e <;> rfl
  | _ => rfl

theorem isCallback_unmarked (p : Part) : p.unmarked.isCallback = p.isCallback := by
  cases p with
  | expr e => cases e <;> rfl
  | _ => rfl

theorem tidy_unmarked (p : Part) : p.unmarked.Tidy ↔ p.Tidy := by
  rw [← p.tidy_bare]
  cases p with
  | expr e => cases e <;> rfl
  | _ => rfl

theorem tidy_of_outline (h : p.outline unmarked = p'.outline unmarked) (htidy : ∀ q ∈ p'.all, q.Tidy) :
    ∀ q ∈ p.all, q.Tidy := by
  intro q hq
  obtain ⟨q', hq', ho⟩ := exists_of_outline h hq
  exact (eq_of_outline (fun q => propext q.tidy_unmarked) ho).mpr (htidy q' hq')

theorem isDeclaration_unmarked (p : Part) : p.unmarked.isDeclaration = p.isDeclaration := by
  cases p with
  | expr e => cases e <;> rfl
  | _ => rfl

theorem below_eq_of_outline {α : Type} {f : Part → α}
    (hf : ∀ {q q' : Part}, q.outline unmarked = q'.outline unmarked → f q = f q')
    (h : p.outline unmarked = p'.outline unmarked) : p.below.map f = p'.below.map f := by
  have hall := all_outline_eq h
  rw [all_eq, all_eq] at hall
  exact map_eq_of_outlines (fun _ _ _ => hf) (List.cons.inj hall).2

end Part

namespace SourceFile

/-- Annotation changes marks only. -/
theorem annotate_alike {si : String} {f f' : SourceFile} (h : f.annotate si = .ok f') :
    f'.Alike Part.unmarked f := by
  have weaken {f f' : SourceFile} (h : f'.Alike Part.unstamped f) : f'.Alike Part.unmarked f :=
    Part.map_eq_of_outlines (fun _ _ _ => Part.outline_unmarked_of_unstamped) h
  have hdeclared : f.stamp.declared.Alike Part.unmarked f.stamp := by
    obtain ⟨_, -, hstmts⟩ := Annotate.declarations_binds.stmts f.stamp.stmts none none rfl
    exact (hstmts.chunks.mono Annotate.Binds.toOutlined).outlines
  exact (weaken (scriptApis_alike h)).trans (hdeclared.trans (weaken f.stamp_alike))

theorem Flat.of_alike {f f' : SourceFile} (h : f'.Alike Part.unmarked f) (hf : f'.Flat) : f.Flat := by
  intro p hp hfun q hq
  obtain ⟨p', hp', ho⟩ := SourceFile.Alike.exists_part h.symm hp
  have hbelow := Part.below_eq_of_outline (Part.eq_of_outline Part.isDeclaration_unmarked) ho
  have hmem : q.isDeclaration ∈ p'.below.map Part.isDeclaration := hbelow ▸ List.mem_map_of_mem hq
  obtain ⟨q', hq', heq⟩ := List.mem_map.1 hmem
  exact heq ▸ hf p' hp' (Part.takesParams_eq_of_outline ho ▸ hfun) q' hq'

end SourceFile

/-! ## What is mentioned and what is bound -/

namespace Simplify.Usage

theorem ofPart_unmarked (p : Part) (below : List Usage) : ofPart p.unmarked below = ofPart p below := by
  cases p with
  | expr e =>
    cases e with
    | assign _ t _ _ => cases t <;> rfl
    | _ => rfl
  | closure c =>
    simp only [Part.unmarked, Part.unstamped, Part.bare, Part.unstamp, Part.unmark, ofPart, List.length_map,
      List.all_map]
    rfl
  | _ => rfl

/-- What is mentioned below a part that is no closure is mentioned in it. -/
theorem mentions_of_child {p q : Part} (hp : ∀ c, p ≠ .closure c) (hq : q ∈ p.children) {v : String}
    (hv : v ∈ (q.fold ofPart).mentions) : v ∈ (p.fold ofPart).mentions := by
  have hbelow : v ∈ (concat (p.children.map (·.fold ofPart))).mentions :=
    mem_mentions_concat.2 ⟨_, List.mem_map_of_mem hq, hv⟩
  rw [Part.fold_eq]
  cases p with
  | expr e =>
    cases e with
    | «variable» => cases hq
    | assign p t w d =>
      cases t with
      | «variable» r n s =>
        refine List.mem_append.2 ?_
        rcases hq with _ | ⟨_, _ | ⟨_, ⟨⟩⟩⟩
        · -- the target itself mentions no other variable
          rw [Part.fold_eq] at hv
          simp only [ofPart] at hv
          split at hv
          · cases hv
          · exact .inr hv
        · exact .inl (mem_mentions_concat.2 ⟨_, .head _, hv⟩)
      | _ => exact hbelow
    | _ => exact hbelow
  | closure c => exact absurd rfl (hp c)
  | clause c => exact hbelow
  | _ => exact hbelow

end Simplify.Usage

namespace Part

/-- The variable occurs in a part: it is read or assigned, or captured by a closure. What an
iteration callback says counts unless the variable is one of its parameters; what another closure
says does not. -/
inductive Occurs (v : String) : Part → Prop
  | var (pos : Position) : Occurs v (.expr (.var pos v))
  | captured {c : Closure} : c.isIteration = false → v ∈ c.captures.map (·.name) → Occurs v (.closure c)
  | callback {c : Closure} {q : Part} : c.isIteration = true → v ∉ c.params.map (·.name) →
      q ∈ (Part.closure c).children → Occurs v q → Occurs v (.closure c)
  | inside {p q : Part} : (∀ c, p ≠ .closure c) → q ∈ p.children → Occurs v q → Occurs v p

theorem Occurs.mem_mentions {v : String} {p : Part} (h : Occurs v p) (hv : v ≠ "this")
    (hp : ∀ q ∈ p.all, q.Tidy) : v ∈ (p.fold Simplify.Usage.ofPart).mentions := by
  induction h with
  | var pos =>
    rw [fold_eq]
    simp [Simplify.Usage.ofPart, hv]
  | captured hc hcaptures =>
    rw [fold_eq]
    simpa [Simplify.Usage.ofPart, hc] using hcaptures
  | @callback c q hc hparams hq hocc ih =>
    obtain ⟨hhead, hcs⟩ := forall_mem_all_iff.1 hp
    have hmem := ih (hcs q hq)
    rcases List.mem_append.1 hq with hparam | hbody
    · -- the parameters of a callback have no defaults
      obtain ⟨r, hr, rfl⟩ := List.mem_map.1 hparam
      rw [fold_eq, children, hhead hc r hr] at hmem
      cases hmem
    · rw [fold_eq]
      simp only [Simplify.Usage.ofPart, hc, if_true, children, List.map_append]
      refine List.mem_filter.2 ⟨?_, by simpa using hparams⟩
      rw [List.drop_left' (by simp)]
      exact Simplify.Usage.mem_mentions_concat.2 ⟨_, List.mem_map_of_mem hbody, hmem⟩
  | inside hclosure hq _ ih =>
    exact Simplify.Usage.mentions_of_child hclosure hq (ih fun r hr => (forall_mem_all_iff.1 hp).2 _ hq r hr)

end Part

namespace Part

/-- What a part without declarations defines, it binds. -/
theorem bindings_of_defines {p : Part} (htidy : ∀ q ∈ p.all, q.Tidy)
    (hflat : ∀ q ∈ p.all, q.isDeclaration = false) {v : String} (hv : v ≠ "this")
    (h : v ∈ (p.fold Simplify.Usage.ofPart).defines) : ∃ b ∈ p.bindings, v ∈ b.names := by
  induction p using Part.induction with
  | step p ih =>
    obtain ⟨hhead, htidy⟩ := forall_mem_all_iff.1 htidy
    obtain ⟨hdeclares, hflat⟩ := forall_mem_all_iff.1 hflat
    have hbelow {ps : List Part} (hps : ∀ c ∈ ps, c ∈ p.children)
        (h : v ∈ (Simplify.Usage.concat (ps.map (·.fold Simplify.Usage.ofPart))).defines) :
        ∃ b ∈ (p.children.map bindings).flatten, v ∈ b.names := by
      obtain ⟨_, hu, hvu⟩ := Simplify.Usage.mem_defines_concat.1 h
      obtain ⟨c, hc, rfl⟩ := List.mem_map.1 hu
      obtain ⟨b, hb, hvb⟩ := ih c (hps c hc) (htidy c (hps c hc)) (hflat c (hps c hc)) hvu
      exact ⟨b, List.mem_flatten.2 ⟨_, List.mem_map_of_mem (hps c hc), hb⟩, hvb⟩
    rw [fold_eq] at h
    rw [bindings_eq]
    cases p with
    | expr e =>
      have hexpr (h : ∃ b ∈ ((Part.expr e).children.map bindings).flatten, v ∈ b.names) :
          ∃ b ∈ Binding.ofPart (.expr e) ((Part.expr e).children.map bindings), v ∈ b.names := by
        obtain ⟨b, hb, hvb⟩ := h
        exact ⟨b, List.mem_append_left _ hb, hvb⟩
      cases e with
      | «variable» =>
        simp only [Simplify.Usage.ofPart] at h
        split at h <;> cases h
      | assign p t w d =>
        cases t with
        | «variable» r n s =>
          rcases List.mem_append.1 h with h | h
          · have hw : ∀ c ∈ [Part.expr w], c ∈ (Part.expr (.assign p (.variable r n s) w d)).children :=
              List.forall_mem_singleton.2 (.tail _ (.head _))
            exact hexpr (hbelow hw h)
          · obtain rfl := List.mem_singleton.1 h
            cases hhead
            refine ⟨.assigned v d, List.mem_append_right _ ?_, .head _⟩
            simp [Binding.ofExpr, Binding.ofTarget, Annotate.declarable?_var hv]
        | _ => exact hexpr (hbelow (fun _ hc => hc) h)
      | _ => exact hexpr (hbelow (fun _ hc => hc) h)
    | clause c =>
      rcases List.mem_append.1 h with h | h
      · exact ⟨.caught c.var, .head _, h⟩
      · obtain ⟨b, hb, hvb⟩ := hbelow (fun _ hc => hc) h
        exact ⟨b, .tail _ hb, hvb⟩
    | closure c =>
      simp only [Simplify.Usage.ofPart] at h
      split at h <;> cases h
    | method | cls | iface => cases hdeclares
    | _ => exact hbelow (fun _ hc => hc) h

/-- How many parameters a function has. -/
def arity : Part → Nat
  | .method m => m.params.length
  | .closure c => c.params.length
  | _ => 0

theorem arity_unmarked (p : Part) : p.unmarked.arity = p.arity := by
  cases p with
  | expr e => cases e <;> rfl
  | method | closure => exact List.length_map _
  | _ => rfl

theorem stmts_body {p : Part} (hp : p.takesParams = true) : stmts p.body = p.children.drop p.arity := by
  cases p with
  | method | closure => exact (List.drop_left' (List.length_map _)).symm
  | _ => cases hp

theorem stmt_mem_children {p : Part} (hp : p.takesParams = true) {s : Stmt} (hs : s ∈ p.body) :
    .stmt s ∈ p.children := by
  have hmem : Part.stmt s ∈ stmts p.body := List.mem_map_of_mem hs
  rw [stmts_body hp] at hmem
  exact List.mem_of_mem_drop hmem

theorem usage_eq_of_outline {p p' : Part} (h : p.outline unmarked = p'.outline unmarked)
    (hp : p.takesParams = true) : Simplify.usage p.body = Simplify.usage p'.body := by
  have hfold : p.children.map (·.fold Simplify.Usage.ofPart) = p'.children.map (·.fold Simplify.Usage.ofPart) := by
    refine map_eq_of_outlines (fun _ _ _ => fold_eq_of_outline fun below hface => ?_) (outline_eq_iff.1 h).2
    rw [← Simplify.Usage.ofPart_unmarked, hface, Simplify.Usage.ofPart_unmarked]
  rw [Simplify.usage, Simplify.usage, stmts_body hp, stmts_body (takesParams_eq_of_outline h ▸ hp),
    List.map_drop, List.map_drop, hfold, eq_of_outline arity_unmarked h]

end Part

/-! ## Zones of a flat file -/

theorem Binding.mark?_of_mem_ofExpr {e : Expr} {b : Binding} (hb : b ∈ ofExpr e) {d : Option Bool}
    (hd : b.mark? = some d) : (Part.expr e).mark? = some d := by
  cases e with
  | assign p t v d' =>
    cases t with
    | «variable» q n s =>
      obtain rfl := List.mem_singleton.1 hb
      split at hd <;> exact hd
    | _ => cases hb
  | _ => cases hb

/-- The part stands in a zone that is not skipped. -/
structure Zone.Fits (z : Zone) (p : Part) : Prop where
  zone : Throughout zoneShape z p
  notSkipped : z ≠ .skipped
  flat : z = .callback → ∀ q ∈ p.all, q.isDeclaration = false

namespace Zone.Fits

variable {z : Zone} {p c : Part}

theorem enter_eq_self (h : z.Fits p) (hp : p.takesParams = false) : z.enter p = z := by
  cases z with
  | plain => cases p <;> first | rfl | cases hp
  | skipped => exact absurd rfl h.notSkipped
  | callback =>
    have hhead := (forall_mem_all_iff.1 (h.flat rfl)).1
    cases p <;> simp_all [enter, Part.isDeclaration, Part.takesParams]

theorem enter_function (h : z.Fits p) (hp : p.isFunction = true) : z.enter p = .plain := by
  cases z with
  | skipped => exact absurd rfl h.notSkipped
  | _ =>
    cases p with
    | method m =>
      -- a method is declared in no callback
      first | rfl | cases (forall_mem_all_iff.1 (h.flat rfl)).1
    | closure c => exact if_neg (by simpa [Part.isFunction] using hp)
    | _ => cases hp

theorem enter_callback (h : z.Fits p) (hp : p.isCallback = true) : z.enter p = .callback := by
  cases z with
  | skipped => exact absurd rfl h.notSkipped
  | _ =>
    cases p with
    | closure c => exact if_pos hp
    | _ => cases hp

theorem child (h : z.Fits p) (hp : p.takesParams = true → ∀ q ∈ p.below, q.isDeclaration = false)
    (hc : c ∈ p.children) : (z.enter p).Fits c := by
  have hzone := h.zone.child hc
  cases htakes : p.takesParams with
  | false =>
    rw [h.enter_eq_self htakes]
    refine ⟨h.enter_eq_self htakes ▸ hzone, h.notSkipped, fun hz => ?_⟩
    exact (forall_mem_all_iff.1 (h.flat hz)).2 c hc
  | true =>
    refine ⟨hzone, ?_, fun _ q hq => hp htakes q (List.mem_flatMap.2 ⟨c, hc, hq⟩)⟩
    cases p with
    | method m => rw [h.enter_function rfl]; nofun
    | closure f =>
      cases hf : f.isIteration with
      | true => rw [h.enter_callback hf]; nofun
      | false => rw [h.enter_function (by simp [Part.isFunction, hf])]; nofun
    | _ => cases htakes

theorem tidy (h : z.Fits p) : ∀ q ∈ p.all, q.Tidy :=
  h.zone.all fun {_ q} (hholds : zoneShape.holds _ q) => hholds.1

/-- Every part of a flat tree stands in a zone. -/
theorem all (h : z.Fits p)
    (hp : ∀ q ∈ p.all, q.takesParams = true → ∀ r ∈ q.below, r.isDeclaration = false) :
    ∀ q ∈ p.all, ∃ z : Zone, z.Fits q := by
  induction p using Part.induction generalizing z with
  | step p ih =>
    obtain ⟨hhead, hcs⟩ := forall_mem_all_iff.1 hp
    exact forall_mem_all_iff.2 ⟨⟨z, h⟩, fun c hc => ih c hc (h.child hhead hc) (hcs c hc)⟩

/-- What is bound in a zone is marked as the zone says. -/
theorem mark_bindings (h : z.Fits p) {b : Binding} (hb : b ∈ p.bindings) {d : Option Bool}
    (hd : b.mark? = some d) : z.mark? = some d := by
  induction p using Part.induction generalizing z with
  | step p ih =>
    have hbelow (hp : p.takesParams = false) (hb : b ∈ (p.children.map Part.bindings).flatten) :
        z.mark? = some d := by
      rw [← List.flatMap_def] at hb
      obtain ⟨c, hc, hb⟩ := List.mem_flatMap.1 hb
      refine ih c hc ?_ hb
      exact h.enter_eq_self hp ▸ h.child (fun htakes => absurd (hp.symm.trans htakes) nofun) hc
    rw [Part.bindings_eq] at hb
    cases p with
    | expr e =>
      rcases List.mem_append.1 hb with hb | hb
      · exact hbelow rfl hb
      · have hmark := h.zone.head.2 d (Binding.mark?_of_mem_ofExpr hb hd)
        cases z with
        | skipped => exact absurd rfl h.notSkipped
        | _ => exact congrArg some (hmark _ rfl).symm
    | clause c =>
      rcases List.mem_cons.1 hb with rfl | hb
      · cases hd
      · exact hbelow rfl hb
    | closure | method => cases hb
    | _ => exact hbelow rfl hb

/-- What a function binds is marked as its zone says. -/
theorem mark_ownBindings (h : z.Fits p)
    (hp : p.takesParams = true → ∀ q ∈ p.below, q.isDeclaration = false) {b : Binding}
    (hb : b ∈ p.ownBindings) {d : Option Bool} (hd : b.mark? = some d) : (z.enter p).mark? = some d := by
  obtain ⟨c, hc, hb⟩ := List.mem_flatMap.1 hb
  exact (h.child hp hc).mark_bindings hb hd

end Zone.Fits

/-! ## Locals -/

/-- Whatever a function mentions is bound in it, and a variable that only assignments bind is declared
by exactly one of them. -/
structure Part.LocalsDeclared (p : Part) : Prop where
  bound : ∀ v, v ≠ "this" → ∀ s ∈ p.body, (Part.stmt s).Occurs v →
    v ∈ p.bound ∨ .caught v ∈ p.ownBindings ∨ ∃ d, .assigned v d ∈ p.ownBindings
  once : ∀ v, v ∉ p.bound → .caught v ∉ p.ownBindings → (∃ d, .assigned v d ∈ p.ownBindings) →
    p.ownBindings.count (.assigned v (some true)) = 1
  neverTwice : ∀ v, p.ownBindings.count (.assigned v (some true)) ≤ 1

namespace SourceFile

variable {path text si si' : String} {pipeline : Pipeline} {f g h : SourceFile}

theorem simplify_fits (hparse : SourceFile.parse path text = .ok f)
    (hsimplify : f.simplify pipeline si = .ok g) (hflat : g.Flat) : ∀ q ∈ g.parts, ∃ z : Zone, z.Fits q := by
  intro q hq
  obtain ⟨p, hp, hq⟩ := List.mem_flatMap.1 hq
  obtain ⟨s, hs, rfl⟩ := List.mem_map.1 hp
  have hzone := simplify_zones hsimplify (parse_untouched hparse) s hs
  refine Zone.Fits.all ⟨hzone, nofun, nofun⟩ (fun q hq => hflat q ?_) q hq
  exact List.mem_flatMap.2 ⟨_, hp, hq⟩

/-- A function of a simplified file binds what its body mentions. -/
theorem binds_of_mentions (hsimplify : f.simplify pipeline si = .ok g) (hflat : g.Flat) {q : Part}
    (hq : q ∈ g.parts) (hfun : q.isFunction = true) (htidy : ∀ r ∈ q.all, r.Tidy) {v : String}
    (hv : v ≠ "this") (hmentions : v ∈ (Simplify.usage q.body).mentions) :
    v ∈ q.bound ∨ ∃ b ∈ q.ownBindings, v ∈ b.names := by
  refine (simplify_settled hsimplify q hq hfun v hmentions).imp_right fun hdefines => ?_
  have htakes : q.takesParams = true := by simp [q.takesParams_eq, hfun]
  obtain ⟨s, hs, hdefines⟩ := Simplify.mem_defines_usage.1 hdefines
  have hchild := Part.stmt_mem_children htakes hs
  obtain ⟨b, hb, hvb⟩ := Part.bindings_of_defines ((forall_mem_all_iff.1 htidy).2 _ hchild)
    (fun r hr => hflat q hq htakes r (List.mem_flatMap.2 ⟨_, hchild, hr⟩)) hv hdefines
  exact ⟨b, List.mem_flatMap.2 ⟨_, hchild, hb⟩, hvb⟩

/-- In a file without classes in functions, the variables of every function are declared, and in a
callback no assignment declares. -/
theorem locals_declared (hparse : SourceFile.parse path text = .ok f)
    (hsimplify : f.simplify pipeline si = .ok g) (hannotate : g.annotate si' = .ok h) (hflat : h.Flat) :
    (∀ p ∈ h.parts, p.isFunction = true → p.LocalsDeclared) ∧
      ∀ p ∈ h.parts, p.isCallback = true → ∀ b ∈ p.ownBindings, ∀ d, b.mark? = some d → d = some false := by
  have hgflat := hflat.of_alike (annotate_alike hannotate)
  have hfits := simplify_fits hparse hsimplify hgflat
  refine ⟨fun p hp hfun => ?_, fun p hp hcallback b hb d hd => ?_⟩
  · have htakes : p.takesParams = true := by simp [p.takesParams_eq, hfun]
    obtain ⟨q, hq, houtline, hown⟩ := annotate_functions hannotate p hp htakes
    obtain ⟨z, hz⟩ := hfits q hq
    have hqfun : q.isFunction = true := Part.eq_of_outline Part.isFunction_unmarked houtline ▸ hfun
    have hfresh : Binding.Fresh q.ownBindings := fun n d hd => by
      have hmark := hz.mark_ownBindings (hgflat q hq) hd rfl
      rw [hz.enter_function hqfun] at hmark
      exact (Option.some.inj hmark).symm
    refine ⟨fun v hv s hs hoccurs => ?_, fun v hbound hcaught hassigned => ?_, fun v => ?_⟩
    · have htidy := Part.tidy_of_outline houtline hz.tidy
      have hmentions : v ∈ (Simplify.usage p.body).mentions := by
        refine Simplify.mem_mentions_usage.2 ⟨s, hs, hoccurs.mem_mentions hv ?_⟩
        exact (forall_mem_all_iff.1 htidy).2 _ (Part.stmt_mem_children htakes hs)
      rw [Part.usage_eq_of_outline houtline htakes] at hmentions
      rw [hown, Part.bound_eq_of_outline houtline, Binding.caught_mem_marked, Binding.assigned_mem_marked]
      refine (binds_of_mentions hsimplify hgflat hq hqfun hz.tidy hv hmentions).imp_right ?_
      rintro ⟨b, hb, hvb⟩
      cases b with
      | caught n => exact .inl (List.mem_singleton.1 hvb ▸ hb)
      | assigned n d => exact .inr ⟨d, List.mem_singleton.1 hvb ▸ hb⟩
      | unbound n d => cases hvb
    · rw [hown] at hcaught hassigned ⊢
      rw [Part.bound_eq_of_outline houtline] at hbound
      exact Binding.count_marked_eq_one hfresh hbound (Binding.caught_mem_marked.not.1 hcaught)
        (Binding.assigned_mem_marked.1 hassigned)
    · exact hown ▸ Binding.count_marked_le_one hfresh v
  · obtain ⟨q, hq, houtline, hown⟩ := annotate_functions hannotate p hp (by simp [p.takesParams_eq, hcallback])
    obtain ⟨z, hz⟩ := hfits q hq
    have hqcallback : q.isCallback = true := Part.eq_of_outline Part.isCallback_unmarked houtline ▸ hcallback
    have hmarks {b : Binding} (hb : b ∈ q.ownBindings) {d : Option Bool} (hd : b.mark? = some d) :
        d = some false := by
      have hmark := hz.mark_ownBindings (hgflat q hq) hb hd
      rw [hz.enter_callback hqcallback] at hmark
      exact (Option.some.inj hmark).symm
    rw [hown, Binding.marked_eq_self fun n d hd => by rw [hmarks hd rfl]; rfl] at hb
    exact hmarks hb hd

/-- A method with a loop; what the loop assigns is used behind it. -/
def lastText : String :=
  "class A \x7b function last($xs) \x7b foreach ($xs as $x) \x7b $y = $x; \x7d return $y; \x7d \x7d"

theorem lastText_locals : ∃ f g h, SourceFile.parse "last" lastText = .ok f ∧
    f.simplify .full "Api" = .ok g ∧ g.annotate "Api" = .ok h ∧
    ((∃ p ∈ h.parts, p.isFunction = true) ∧ ∃ p ∈ h.parts, p.isCallback = true ∧ p.ownBindings ≠ []) ∧
    (∀ p ∈ h.parts, p.isFunction = true → p.LocalsDeclared) ∧
    ∀ p ∈ h.parts, p.isCallback = true → ∀ b ∈ p.ownBindings, ∀ d, b.mark? = some d → d = some false := by
  obtain ⟨f, hparse, hrun⟩ := exists_parse "last" lastText String.toList_ofList
    (p := fun f => (f.simplify .full "Api").toOption.any fun g => (g.annotate "Api").toOption.any fun h =>
      h.Flat ∧ (∃ p ∈ h.parts, p.isFunction = true) ∧ ∃ p ∈ h.parts, p.isCallback = true ∧ p.ownBindings ≠ [])
    (by decide +kernel)
  obtain ⟨g, hsimplify, hrun⟩ := exists_ok_of_any hrun
  obtain ⟨h, hannotate, hrun⟩ := exists_ok_of_any hrun
  obtain ⟨hflat, hparts⟩ := of_decide_eq_true hrun
  exact ⟨f, g, h, hparse, hsimplify, hannotate, hparts, locals_declared hparse hsimplify hannotate hflat⟩

end SourceFile

end ClassScript
