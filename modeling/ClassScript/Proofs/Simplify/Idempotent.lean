import ClassScript.Proofs.Simplify.Inert
/-!
# Simplifying a simplified file

A simplified file stays as it is when it is simplified once more (`SourceFile.simplify_idempotent`): it is
finished in the eyes of all passes (`SourceFile.simplify_finished`), and none of them changes what is finished
(`statements_of_finished`).

The one thing that a second simplification may read in another way is a type `self` that an import gave to a
parameter: where types are kept, it comes to mean the class around it.
-/

namespace ClassScript

namespace Simplify

/-! ## Types that are kept -/

/-- Where types are kept, none of them is `self`. -/
def keptShape (pipeline : Pipeline) (si : String) : Shape Bool where
  enter := pipeline.keeps si
  holds kept p := kept = true → ∀ t ∈ p.ownType?, t.name.isSelf = false
  enter_expr := pipeline.keeps_expr si
  enter_stmt := pipeline.keeps_stmt si
  enter_param := pipeline.keeps_param si
  enter_bare := pipeline.keeps_bare si
  holds_bare _ p := by rw [p.ownType?_bare]

section Kept

variable {pipeline : Pipeline} {si : String}

theorem keptShape_holds {b : Bool} {p : Part} (h : p.ownType? = none) : (keptShape pipeline si).holds b p := by
  rintro - t ht
  rw [h] at ht
  cases ht

theorem admitsOwners_kept : AdmitsOwners (keptShape pipeline si) :=
  ⟨fun _ _ => keptShape_holds rfl, fun _ _ => keptShape_holds rfl⟩

theorem admitsPlain_kept : AdmitsPlain (keptShape pipeline si) := by
  constructor <;> intros <;> exact keptShape_holds rfl

theorem admitsGuards_kept : AdmitsGuards (keptShape pipeline si) := by
  constructor <;> intros <;> exact keptShape_holds rfl

theorem keepsScripts_kept (si : String) : KeepsScripts (keptShape .full si) id si where
  cls := rfl
  other {_ p} hp := by
    cases p with
    | cls c => exact absurd rfl (hp c)
    | _ => rfl

theorem admitsCallback_kept : AdmitsCallback (fun _ => True) (keptShape pipeline si) (keptShape pipeline si) where
  enter := rfl
  inside _ _ := trivial
  kept _ _ _ h := h
  expr _ _ := keptShape_holds rfl
  ret _ := keptShape_holds rfl
  stop _ := keptShape_holds rfl
  closure _ h := h

theorem admitsArrays_kept : AdmitsArrays (keptShape pipeline si) (keptShape pipeline si) where
  enter := rfl
  kept _ h := h
  call := keptShape_holds rfl
  array := keptShape_holds rfl
  statement := keptShape_holds rfl
  function := keptShape_holds rfl
  callback _ := keptShape_holds rfl
  binding h := keptShape_holds h.type
  body _ h := callbackBody_throughout admitsCallback_kept trivial h

theorem admitsInitialisers_kept : AdmitsInitialisers (keptShape pipeline si) := by
  intro b p pos name _
  refine throughout_stmt.2 ⟨keptShape_holds rfl, List.forall_mem_singleton.2 ?_⟩
  refine throughout_expr.2 ⟨keptShape_holds rfl, ?_⟩
  rintro _ (_ | ⟨_, _ | ⟨_, ⟨⟩⟩⟩) <;> exact throughout_expr.2 ⟨keptShape_holds rfl, nofun⟩

theorem types_kept {ss : List Stmt} (h : ∀ s ∈ ss, Throughout (keptShape pipeline si) false (.stmt s)) :
    ∀ s ∈ types pipeline si ss, Throughout (keptShape pipeline si) false (.stmt s) := by
  intro s hs x hx
  cases pipeline with
  | full =>
    have hguards := (typeGuards_sound admitsGuards_kept (keepsScripts_kept si)).stmts ss {}
    have hs : UpToType _ id false (.stmt s) := Carried.ofStmts hguards rfl h s hs
    exact (hs x hx).1
  | reduced =>
    let r := keptShape .reduced si
    have htypeless : Change.Stmts (Turned r (r.untyped id)) () ss _ () :=
      (typeless_sound admitsGuards_kept.untyped).stmts ss ()
    exact (Carried.ofStmts htypeless trivial h s hs x hx).1

/-- All passes behind the first one leave the kept types as they are. -/
theorem statements_kept {ss out : List Stmt} (h : statements pipeline si ss = .ok out)
    (hss : ∀ s ∈ (resolveNames ss).1, Throughout (keptShape pipeline si) false (.stmt s)) :
    ∀ s ∈ out, Throughout (keptShape pipeline si) false (.stmt s) := by
  obtain ⟨plain, hplain, h⟩ := bind_eq_ok.1 h
  obtain ⟨listed, hlisted, h⟩ := bind_eq_ok.1 h
  obtain ⟨owned, howned, hplain⟩ := bind_eq_ok.1 hplain
  cases h
  cases hplain
  have himports := Carried.ofStmts ((imports_sound _).stmts _ ()) trivial hss
  have howners := Carried.ofStmts ((owners_sound admitsOwners_kept).stmts _ {} owned howned) trivial
    fun s hs x hx => (himports s hs x hx).1
  have hcompound := Carried.ofStmts ((compound_sound admitsPlain_kept).stmts owned ()) trivial
    fun s hs x hx => (howners s hs x hx).1
  have harrays := Carried.ofStmts ((arrays_sound admitsArrays_kept).stmts _ () listed hlisted) trivial
    (types_kept fun s hs x hx => (hcompound s hs x hx).1)
  exact Carried.ofStmts ((initialisers_sound admitsInitialisers_kept).stmts listed ()) trivial harrays

end Kept

/-! ## Finished files -/

/-- No pass has anything left to do. -/
structure Finished (x : Bool × Option Name) (p : Part) : Prop where
  normal : p.Normal
  untyped : x.1 = false → p.ownType? = none
  type : ∀ t ∈ p.ownType?, (t.name.isScalar = true ∨ t.name.IsGlobal) ∧ t.name.isSelf = false
  named : p.NamedIn x.2
  settled : p.isFunction = true → Settled p.bound p.body

/-- A part is finished where types are kept or not, and in its namespace. -/
abbrev AllFinished (pipeline : Pipeline) (si : String) : Bool × Option Name → Part → Prop :=
  Everywhere (fun x p => (pipeline.keeps si x.1 p, p.namespaceBelow x.2)) Finished

section Finished

variable {pipeline : Pipeline} {si : String} {x : Bool × Option Name} {p : Part}

theorem finished_of_holds (hn : (normalShape pipeline si).holds x.1 p) (hk : (keptShape pipeline si).holds x.1 p)
    (hp : p.NamedIn x.2) (hs : p.isFunction = true → Settled p.bound p.body) : Finished x p where
  normal := ⟨hn.1.1.1.1.2, hn.2, hn.1.1.2, hn.1.1.1.2, hn.1.1.1.1.1.2.names⟩
  untyped := hn.1.2
  type t ht := by
    refine ⟨hn.1.1.1.1.1.2.type t ht, hk ?_ t ht⟩
    refine Bool.of_not_eq_false fun hx => ?_
    rw [hn.1.2 hx] at ht
    cases ht
  named := hp
  settled := hs

theorem AllFinished.finalNames (h : AllFinished pipeline si x p) {s : Scope} (hs : s.namespaceName = x.2) :
    Everywhere scopeBelow FinalNames s p := by
  refine h.imp (fun x s => s.namespaceName = x.2) ?_ ?_ hs
  · intro x s p hs _
    cases p with
    | stmt st =>
      cases st with
      | nsBlock => rfl
      | _ => exact hs
    | _ => exact hs
  · intro x s p hs hp
    exact ⟨hp.normal.noArray, hp.normal.noImport, hp.normal.names, hp.type, hs ▸ hp.named⟩

/-- What is asked of a finished part in all contexts alike. -/
theorem AllFinished.weaken {κ : Type} {enter : κ → Part → κ} {P : Part → Prop} (h : AllFinished pipeline si x p)
    (hP : ∀ {x p}, Finished x p → P p) {k : κ} : Everywhere enter (fun _ => P) k p :=
  h.imp (fun _ _ => True) (fun _ _ => trivial) (fun _ => hP) trivial

theorem AllFinished.typeless (h : AllFinished .reduced si x p) (hx : x.1 = false) :
    Everywhere (fun _ _ => ()) (fun _ p => p.NoArray ∧ p.ownType? = none) () p := by
  -- Without guards no class keeps its types.
  refine h.imp (fun x _ => x.1 = false) ?_ (fun hx hp => ⟨hp.normal.noArray, hp.untyped hx⟩) hx
  intro x _ p hx _
  cases p with
  | cls => rfl
  | _ => exact hx

theorem AllFinished.guards (h : AllFinished .full si x p) {k : Place} (hk : x.1 = k.inScript) :
    Everywhere (placeBelow si) (fun k p => p.NoArray ∧ (k.inScript = false → p.ownType? = none)) k p := by
  refine h.imp (fun x k => x.1 = k.inScript) ?_ (fun hk hp => ⟨hp.normal.noArray, hk ▸ hp.untyped⟩) hk
  intro x k p hk _
  cases p with
  | cls => rfl
  | _ => exact hk

end Finished

section Fixed

variable {pipeline : Pipeline} {si : String} {ss : List Stmt}
  (h : ∀ s ∈ ss, AllFinished pipeline si (false, none) (.stmt s))

include h

theorem resolved_of_finished : resolved ss = .ok ss := by
  have hnames : (resolveNames ss).1 = ss := congrArg Prod.fst <| leaves_iff_run.1 <|
    names_inert.stmts ss {} fun s hs => (h s hs).finalNames rfl
  have himports : stmtsThrough (m := Id) imports ss = ss :=
    (imports_inert.stmts ss () fun s hs => (h s hs).weaken fun hp => ⟨hp.normal.noArray, hp.normal.noImport⟩).1
  obtain ⟨_, howners, rfl, -⟩ := owners_inert.stmts ss {} fun s hs =>
    (h s hs).weaken fun hp => ⟨hp.normal.noArray, hp.normal.noOwner⟩
  have hcompound : stmtsThrough (m := Id) compound _ = _ :=
    (compound_inert.stmts _ () fun s hs => (h s hs).weaken fun hp => ⟨hp.normal.noArray, hp.normal.noCompound⟩).1
  simp only [resolved, hnames, himports, howners]
  exact congrArg Except.ok hcompound

theorem types_of_finished : types pipeline si ss = ss := by
  cases pipeline with
  | full => exact ((typeGuards_inert si).stmts ss {} fun s hs => (h s hs).guards rfl).1
  | reduced => exact (typeless_inert.stmts ss () fun s hs => (h s hs).typeless rfl).1

theorem statements_of_finished : statements pipeline si ss = .ok ss := by
  obtain ⟨_, harrays, rfl, -⟩ := arrays_inert.stmts ss () fun s hs => (h s hs).weaken fun hp => hp.normal.noArray
  have hinitialisers : stmtsThrough (m := Id) initialisers _ = _ :=
    (initialisers_inert.stmts _ () fun s hs => (h s hs).weaken fun hp => ⟨hp.normal.noArray, hp.settled⟩).1
  rw [statements, resolved_of_finished h]
  change (stmtsThrough arrays (types pipeline si _) >>= fun ss => .ok (stmtsThrough (m := Id) initialisers ss)) = _
  rw [types_of_finished h, harrays]
  exact congrArg Except.ok hinitialisers

end Fixed

/-- A type that is kept stands in a class that lists the script interface. -/
theorem keptShape_throughout {pipeline : Pipeline} {si : String} {p : Part} {kept : Bool}
    (hkept : kept = true → ∀ q ∈ p.all, ∀ t ∈ q.ownType?, t.name.isSelf = false)
    (hscripts : ∀ c, .cls c ∈ p.all → c.lists si = true →
      ∀ q ∈ (Part.cls c).all, ∀ t ∈ q.ownType?, t.name.isSelf = false) :
    Throughout (keptShape pipeline si) kept p := by
  induction p using Part.induction generalizing kept with
  | step p ih =>
    refine throughout_iff.2 ⟨fun h => hkept h p p.mem_all_self, fun c hc => ih c hc (fun h q hq => ?_) ?_⟩
    · have hq := Part.all_subset_of_mem_children hc hq
      cases p with
      | cls k => exact hscripts k (Part.mem_all_self _) (Bool.and_eq_true_iff.1 h).2 q hq
      | _ => exact hkept h q hq
    · exact fun k hk => hscripts k (Part.all_subset_of_mem_children hc hk)

end Simplify

theorem SourceFile.simplify_eq_ok {pipeline : Pipeline} {si : String} {f out : SourceFile} :
    f.simplify pipeline si = .ok out ↔
      Simplify.statements pipeline si f.stmts = .ok out.stmts ∧ out.path = f.path := by
  unfold simplify
  split
  · next ss hok =>
    constructor
    · rintro ⟨⟩
      exact ⟨hok, rfl⟩
    · rintro ⟨hout, hpath⟩
      cases hok.symm.trans hout
      rw [← hpath]
  · next fault hfault =>
    constructor
    · nofun
    · rintro ⟨hout, -⟩
      cases hfault.symm.trans hout

theorem SourceFile.simplify_finished {pipeline : Pipeline} {si : String} {f out : SourceFile}
    (h : f.simplify pipeline si = .ok out)
    (hkept : ∀ s ∈ f.resolveNames.stmts, Throughout (Simplify.keptShape pipeline si) false (.stmt s)) :
    ∀ s ∈ out.stmts, Simplify.AllFinished pipeline si (false, none) (.stmt s) := by
  have hstatements := (simplify_eq_ok.1 h).1
  have hnormal := Simplify.statements_throughout hstatements
  have hplaced := Simplify.statements_placed hstatements
  have hkept' := Simplify.statements_kept hstatements hkept
  have hsettled := simplify_settled h
  intro s hs
  have hall : Everywhere (pipeline.keeps si) (fun _ p => p.isFunction = true → Simplify.Settled p.bound p.body)
      false (.stmt s) :=
    everywhere_of_all fun q hq => hsettled q (List.mem_flatMap.2 ⟨_, List.mem_map_of_mem hs, hq⟩)
  have hkeeps : Everywhere (pipeline.keeps si) (fun b p => ((Simplify.normalShape pipeline si).holds b p ∧
      (Simplify.keptShape pipeline si).holds b p) ∧ (p.isFunction = true → Simplify.Settled p.bound p.body))
      false (.stmt s) := fun x hx => ⟨⟨hnormal s hs x hx, hkept' s hs x hx⟩, hall x hx⟩
  intro x hx
  obtain ⟨⟨⟨hn, hk⟩, hsettled⟩, hp⟩ := hkeeps.both (hplaced s hs) x hx
  exact Simplify.finished_of_holds hn hk hp hsettled

/-- A simplified file stays as it is when it is simplified once more. Nothing is asked of the file if no class of
it lists the script interface. In one that does, no type may have become `self` by an import. -/
theorem SourceFile.simplify_idempotent {pipeline : Pipeline} {si : String} {f out : SourceFile}
    (hscripts : ∀ c, .cls c ∈ f.resolveNames.parts → c.lists si = true →
      ∀ q ∈ (Part.cls c).all, ∀ t ∈ q.ownType?, t.name.isSelf = false)
    (h : f.simplify pipeline si = .ok out) : out.simplify pipeline si = .ok out := by
  refine simplify_eq_ok.2 ⟨Simplify.statements_of_finished (simplify_finished h fun s hs => ?_), rfl⟩
  refine Simplify.keptShape_throughout nofun fun c hc => hscripts c ?_
  exact List.mem_flatMap.2 ⟨_, List.mem_map_of_mem hs, hc⟩

theorem SourceFile.sumFile_idempotent : ∃ out, sumFile.simplify .full "Lib\\Api" = .ok out ∧
    out.simplify .full "Lib\\Api" = .ok out := by
  have hok : (sumFile.simplify .full "Lib\\Api").isOk = true := by decide +kernel
  have hnames : sumFile.resolveNames.stmts =
    [.imports .unknown [⟨⟨["Lib", "Api"], .qualified⟩, none⟩],
    .classDecl { sumClass [⟨["Lib", "Api"], .fullyQualified⟩] with qualified := some "Sum" },
    .nsBlock .unknown (some ⟨["Plain"], .unqualified⟩)
      [.classDecl { sumClass [] with qualified := some "Plain\\Sum" }] true] := rfl
  have hint : Name.isSelf ⟨["int"], .unqualified⟩ = false := by decide
  have htypes : ∀ q ∈ sumFile.resolveNames.parts, ∀ t ∈ q.ownType?, t.name.isSelf = false := by
    simp [parts, hnames, sumClass, sumMethod, Part.all_eq, Part.children, Part.members, Part.ofStmt, Part.ofExpr,
      Part.stmts, Part.exprs, Part.ownType?, Expr.var, Part.ofClassRef, hint]
  have hscripts : ∀ c, .cls c ∈ sumFile.resolveNames.parts → c.lists "Lib\\Api" = true →
      ∀ q ∈ (Part.cls c).all, ∀ t ∈ q.ownType?, t.name.isSelf = false := by
    intro c hc _ q hq
    obtain ⟨p, hp, hc⟩ := List.mem_flatMap.1 hc
    exact htypes q (List.mem_flatMap.2 ⟨p, hp, Part.all_subset_of_mem hc hq⟩)
  cases h : sumFile.simplify .full "Lib\\Api" with
  | error d =>
    rw [h] at hok
    cases hok
  | ok out => exact ⟨out, rfl, simplify_idempotent hscripts h⟩

end ClassScript
