import ClassScript.Proofs.Annotate.Marks
import ClassScript.Proofs.Simplify.NormalForm
import ClassScript.Proofs.Tree.Contains
import ClassScript.Subset
/-!
# Methods are emitted without internal failures

A file that is simplified, in the subset, annotated and marked holds nothing in its methods that an
earlier stage had to settle, so whatever is wrong with a method is wrong with the source
(`emission_kind_ne_internal`).
-/

namespace ClassScript

/-! ## What the stages leave -/

theorem Subset.named_of_classRef? {c : ClassRef} (h : classRef? c = none) (hself : c ≠ .self)
    (hparent : c ≠ .parent) : ∃ n, c = .named n := by
  cases c with
  | named n => exact ⟨n, rfl⟩
  | self => exact absurd rfl hself
  | parent => exact absurd rfl hparent
  | static | dynamic => cases h

/-- What is normal and in the subset is simple. -/
theorem Part.simple_of_normal {p : Part} (h : p.Normal) (hp : Subset.part? p = none) : p.Simple := by
  cases p with
  | expr e =>
    have hcause : Subset.exprCause? e = none := Option.map_eq_none_iff.1 hp
    have howner := h.noOwner
    cases e with
    | array | index => exact h.noArray
    | assignOp | step => exact h.noCompound
    | staticCall _ c _ _ | staticProperty _ c _ =>
      cases c with
      | parent => exact howner.2 rfl
      | _ => cases hcause
    | classConst _ c _ | instanceOf _ _ c =>
      exact Subset.named_of_classRef? hcause (fun hc => howner.1 (congrArg some hc))
        fun hc => howner.2 (congrArg some hc)
    | new _ c _ =>
      exact Subset.named_of_classRef? (Option.or_eq_none_iff.1 hcause).1
        (fun hc => howner.1 (congrArg some hc)) fun hc => howner.2 (congrArg some hc)
    | _ => trivial
  | stmt s =>
    cases s with
    | foreach => exact h.noArray
    | _ => trivial
  | _ => trivial

theorem Class.method_mem_members {c : Class} {m : Method} (h : m ∈ c.methods) : .method m ∈ c.members := by
  obtain ⟨x, hx, hm⟩ := List.mem_filterMap.1 h
  cases x with
  | method d => cases hm; exact hx
  | _ => cases hm

/-- What has all its marks in a method is ready. -/
theorem Annotate.reached_of_bucketed {p : Part} (h : Throughout bucketedShape .function p) :
    Emit.Reached true p := by
  refine h.imp (fun b l => l ≠ .apart → l = .inside ∧ b = .function) ?_ ?_ fun _ => ⟨rfl, rfl⟩
  · intro b l p hb _ hl
    cases p with
    | cls | iface | method => cases l <;> exact absurd rfl hl
    | _ =>
      obtain ⟨rfl, rfl⟩ := hb (by rintro rfl; exact hl rfl)
      exact ⟨rfl, rfl⟩
  · intro b l p hb hold inside hl
    obtain ⟨rfl, rfl⟩ := hb (hl ▸ Emit.Site.of_ne_apart inside)
    exact ⟨hold.1.1.1, hold.1.2 rfl, hold.2 rfl, fun hinside => by rw [hinside] at hl; cases hl⟩

namespace SourceFile

open Annotate

theorem simple_throughout {pipeline : Pipeline} {si : String} {f g : SourceFile}
    (hg : f.simplify pipeline si = .ok g) (hsubset : g.violation? = none) :
    ∀ s ∈ g.stmts, Throughout simpleShape .file (.stmt s) := by
  intro s hs
  have hparts := (Option.or_eq_none_iff.1 hsubset).2
  refine throughout_of_all fun q hq _ => Part.simple_of_normal ?_ ?_
  · exact (simplify_throughout hg s hs).all
      (fun h => ⟨h.1.1.1.1.2, h.2, h.1.1.2, h.1.1.1.2, h.1.1.1.1.1.2.names⟩) q hq
  · exact List.findSome?_eq_none_iff.1 hparts q
      (List.mem_flatMap.2 ⟨_, List.mem_map_of_mem hs, hq⟩)

theorem annotate_throughout {si : String} {g h : SourceFile} (hh : g.annotate si = .ok h)
    (hg : ∀ s ∈ g.stmts, Throughout simpleShape .file (.stmt s)) :
    ∀ s ∈ h.stmts, Throughout markedShape .file (.stmt s) := by
  obtain ⟨stmts, hstmts, hh⟩ := bind_eq_ok.1 hh
  cases hh
  have hstamped := Carried.ofStmts (visibility_sound.stmts g.stmts ()) trivial hg
  obtain ⟨k, -, hdeclared⟩ := declarations_sound.stmts (g.stamp).stmts false none rfl
  have hmarked := Carried.ofStmts (b := .file) hdeclared nofun hstamped
  exact Carried.ofStmts ((scriptApis_sound si).stmts _ () _ hstmts) trivial hmarked

theorem markAccess_throughout {h k : SourceFile} {registry : Registry}
    (hk : (h.markAccess.run.run registry).1 = .ok k)
    (hh : ∀ s ∈ h.stmts, Throughout markedShape .file (.stmt s)) :
    ∀ s ∈ k.stmts, Throughout bucketedShape .file (.stmt s) := by
  have hgives : (Logic.reading (Option String) (.answered Diagnostic Unit Registry.entries)).Gives none
      (h.through access) fun k _ => ∀ s ∈ k.stmts, Throughout bucketedShape .file (.stmt s) :=
    Logic.bind _ (access_sound.stmts h.stmts none) fun _ _ hss =>
      Logic.pure _ (Carried.ofStmts hss (by rintro (⟨⟨⟩⟩ | ⟨⟨⟩⟩)) hh)
  exact (markAccess_gives hgives registry).2 k hk

theorem throughout_class {k : SourceFile} (hk : ∀ s ∈ k.stmts, Throughout bucketedShape .file (.stmt s))
    {c : Class} (hc : c ∈ k.classes) : Throughout bucketedShape .file (.cls c) := by
  obtain ⟨d, hd, hleft⟩ := List.mem_filterMap.1 hc
  obtain rfl := Sum.getLeft?_eq_some_iff.1 hleft
  exact throughout_declarationsOf k.stmts hk _ hd

/-- All that is emitted with a method of a class at file level is ready. -/
theorem methods_ready {k : SourceFile} (hk : ∀ s ∈ k.stmts, Throughout bucketedShape .file (.stmt s))
    {c : Class} (hc : c ∈ k.classes) {m : Method} (hm : m ∈ c.methods) :
    m.resolved.isSome = true ∧ ∀ q ∈ (Part.method m).children, Emit.Reached true q := by
  have hcls := throughout_class hk hc
  have hmember := Class.method_mem_members hm
  have hmethod : Throughout bucketedShape .member (.method m) :=
    hcls.child (Part.mem_members.2 ⟨_, hmember, .inr (.inr ⟨m, rfl, rfl⟩)⟩)
  exact ⟨hcls.head.1.1.2 rfl _ hmember, fun q hq => reached_of_bucketed (hmethod.child hq)⟩

/-- A method of a class at file level, constructors included, is emitted without an internal failure
if its file got through the stages before emission. -/
theorem emission_kind_ne_internal {pipeline : Pipeline} {si si' : String} {f g h k : SourceFile}
    {registry : Registry} (hg : f.simplify pipeline si = .ok g) (hsubset : g.violation? = none)
    (hh : g.annotate si' = .ok h) (hk : (h.markAccess.run.run registry).1 = .ok k)
    {c : Class} (hc : c ∈ k.classes) {m : Method} (hm : m ∈ c.methods)
    (ctx : Emit.Context) (frame : Option Emit.Frame) {d : Diagnostic}
    (hd : (Emit.emitMethod ctx c.qualifiedName m).run frame = .error d ∨
      (Emit.emitFunction ctx m (m.body.getD [])).run frame = .error d) : d.kind ≠ .internal := by
  have hmarked := markAccess_throughout hk (annotate_throughout hh (simple_throughout hg hsubset))
  obtain ⟨hresolved, hready⟩ := methods_ready hmarked hc hm
  obtain ⟨hparams, hbody⟩ := List.forall_mem_append.1 hready
  rcases hd with hd | hd
  · have hsafe : Emit.Safe false (Emit.emitMethod ctx c.qualifiedName m) :=
      Emit.emitMethod_safe ctx c.qualifiedName hresolved hready
    have hfine := hsafe frame nofun
    rwa [hd] at hfine
  · have hsafe : Emit.Safe false (Emit.emitFunction ctx m (m.body.getD [])) :=
      Emit.emitFunction_safe ctx hparams hbody
    have hfine := hsafe frame nofun
    rwa [hd] at hfine

/-! A file with one class, and what the stages find out about it. -/

/-- Keeps what it gets, in a variable and in a property. -/
def keepMethod (resolved : Option Visibility) (declares : Option Bool) (bucket : Option Visibility) :
    Method where
  name := "keep"
  params := [⟨"n", none, none, false, false, false, .unknown⟩]
  body := some
    [.expression (.assign .unknown (.var .unknown "m") (.var .unknown "n") declares),
    .expression (.assign .unknown (.property .unknown (.var .unknown "this") (.ident "kept") bucket)
      (.var .unknown "m") none)]
  byRefReturn := false
  modifiers := {}
  resolved
  pos := .unknown

def keepClass (qualified : Option String) (kept : Option Visibility) (keep : Method) : Class where
  name := "Keep"
  parent := none
  interfaces := []
  members := [.property ⟨"kept", none, { visibility := some .priv }, kept, .unknown⟩, .method keep]
  isAbstract := false
  isFinal := false
  pos := .unknown
  qualified
  scriptApis := none

def keepFile (c : Class) : SourceFile := ⟨"keep", [.classDecl c]⟩

def keepRegistry : Registry where
  classes :=
    [{ name := "Keep"
       parent := none
       interfaces := []
       properties := [("kept", .priv)]
       methods := [("keep", .pub)]
       isInternal := false }]

theorem keepFile_emission :
    let f := keepFile (keepClass none none (keepMethod none none none))
    let g := keepFile (keepClass (some "Keep") none (keepMethod none none none))
    let keep := keepMethod (some .pub) (some true)
    let h := keepFile (keepClass (some "Keep") (some .priv) (keep none))
    let c := keepClass (some "Keep") (some .priv) (keep (some .priv))
    f.simplify .full "Api" = .ok g ∧ g.violation? = none ∧ g.annotate "Api" = .ok h ∧
      (h.markAccess.run.run keepRegistry).1 = .ok (keepFile c) ∧
      ∀ ctx frame d, (Emit.emitMethod ctx c.qualifiedName (keep (some .priv))).run frame = .error d ∨
        (Emit.emitFunction ctx (keep (some .priv)) ((keep (some .priv)).body.getD [])).run frame =
          .error d → d.kind ≠ .internal := by
  intro f g keep h c
  have hg : f.simplify .full "Api" = .ok g := by with_unfolding_all rfl
  have hsubset : g.violation? = none := by decide +kernel
  have hh : g.annotate "Api" = .ok h := rfl
  have hk : (h.markAccess.run.run keepRegistry).1 = .ok (keepFile c) := by with_unfolding_all rfl
  exact ⟨hg, hsubset, hh, hk, fun ctx frame d =>
    emission_kind_ne_internal hg hsubset hh hk (c := c) (.head _) (.head _) ctx frame⟩

end SourceFile

end ClassScript
