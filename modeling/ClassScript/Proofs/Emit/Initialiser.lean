import ClassScript.Compile
import ClassScript.Proofs.Emit.Declaration
import ClassScript.Proofs.Emit.Method
import ClassScript.Proofs.Grammar.Statement
import ClassScript.Proofs.Tree.Inert
/-!
# Initialisers are emitted without internal failures

The default of a property and the value of a constant may be any expression, but they stand in no function. A class
or interface of a file that got through the stages before emission fails for no internal reason as long as its
initialisers assign no variable outside of the closures in them, and those of an interface ask for no member of
`$this` (`SourceFile.initialiser_kind_ne_internal`). The stages let both pass without the marks that emission
needs (`SourceFile.looseText_internal`).
-/

namespace ClassScript

/-! ## What initialisers may not do -/

/-- The variable that a part assigns by itself. -/
def Part.assigned? : Part → Option String
  | .expr (.assign _ t _ _) => Annotate.declarable? t
  | _ => none

/-- The member of `$this` that a part names by itself. -/
def Part.thisMember? : Part → Option String
  | .expr (.property _ o (.ident n) _) | .expr (.methodCall _ o (.ident n) _ _) => if o.isThis then some n else none
  | _ => none

/-- The expression assigns a variable outside of the closures in it. -/
def Expr.AssignsOutside (e : Expr) : Prop :=
  ∃ x ∈ (Part.expr e).within Emit.Site.enter .outside, x.1 = .outside ∧ x.2.assigned?.isSome = true

/-- The expression names a member of `$this`, be it in a closure. -/
def Expr.NamesThis (e : Expr) : Prop :=
  ∃ x ∈ (Part.expr e).within Emit.Site.enter .outside, x.1 ≠ .apart ∧ x.2.thisMember?.isSome = true

instance (e : Expr) : Decidable e.AssignsOutside := inferInstanceAs (Decidable (∃ x ∈ _, _))

instance (e : Expr) : Decidable e.NamesThis := inferInstanceAs (Decidable (∃ x ∈ _, _))

theorem Part.marked_of_assigned? {p : Part} (h : p.assigned? = none) : p.Marked := by
  cases p with
  | expr e => exact Annotate.marked_of_not_declarable fun _ _ _ _ he => by subst he; exact h
  | _ => trivial

theorem Part.declaresNone_of_assigned? {p : Part} (h : p.assigned? = none) : p.DeclaresNone := by
  cases p with
  | expr e =>
    cases e with
    | assign p t v d =>
      cases t with
      | «variable» q n s =>
        cases s with
        | false => exact fun hn => absurd ((Annotate.declarable?_var hn q).symm.trans h) (by simp)
        | true => trivial
      | _ => trivial
    | _ => trivial
  | _ => trivial

theorem Part.bucketed_of_thisMember? {p : Part} (h : p.thisMember? = none) : p.Bucketed := by
  cases p with
  | expr e =>
    cases e with
    | property _ o n _ | methodCall _ o n _ _ =>
      cases n with
      | ident n => exact fun ho => by simp [thisMember?, ho] at h
      | dynamic e => trivial
    | _ => trivial
  | _ => trivial

/-! ## Marks and sites -/

namespace Annotate

open Emit

/-- Where a part of a class or of an interface stands, and where it is emitted. -/
def Matches (inClass : Bool) (b : Spot) : Site → Prop
  | .inside => b = if inClass then .function else .closure
  | .outside => b = if inClass then .member else .constant
  | .apart => True

theorem Matches.enter {inClass : Bool} {b : Spot} {s : Site} (h : Matches inClass b s) (p : Part) :
    Matches inClass (b.enter p) (s.enter p) := by
  cases s with
  | apart => cases p <;> trivial
  | inside | outside =>
    cases h
    cases inClass <;> cases p <;> trivial

/-- What has its marks is ready, if it does nothing that there is no mark for. -/
theorem ready_of_bucketed {inClass : Bool} {b : Spot} {s : Site} {p : Part} (h : Throughout bucketedShape b p)
    (hb : Matches inClass b s) (hassigns : Everywhere Site.enter (fun s p => s = .outside → p.assigned? = none) s p)
    (hthis : inClass = false → Everywhere Site.enter (fun s p => s ≠ .apart → p.thisMember? = none) s p) :
    Throughout readyShape s p := by
  -- by the parts: what stands around a part says both where its marks come from and how it is emitted
  induction p using Part.induction generalizing b s with
  | step p ih =>
    refine throughout_iff.2 ⟨fun inside hs => ?_, fun c hc => ?_⟩
    · subst hs
      obtain ⟨⟨⟨hsimple, -⟩, hmarked⟩, hbucketed⟩ := h.head
      refine ⟨hsimple, ?_, ?_, fun hinside => ?_⟩
      · -- in a function the assignments are marked, and outside there are none
        cases inside with
        | true => exact hmarked (by cases inClass <;> rw [show b = _ from hb] <;> rfl)
        | false => exact Part.marked_of_assigned? (hassigns.head rfl)
      · -- a class tells where the members of `$this` are, and an interface has none to ask for
        cases inClass with
        | true => exact hbucketed (by cases inside <;> rw [show b = _ from hb] <;> rfl)
        | false => exact Part.bucketed_of_thisMember? ((hthis rfl).head (Site.of_ne_apart inside))
      · subst hinside
        exact Part.declaresNone_of_assigned? (hassigns.head rfl)
    · exact ih c hc (h.child hc) (hb.enter p) (hassigns.child hc) fun hclass => (hthis hclass).child hc

theorem initialiser_reached {inClass : Bool} {b : Spot} {e : Expr} (h : Throughout bucketedShape b (.expr e))
    (hb : Matches inClass b .outside) (hassigns : ¬ e.AssignsOutside) (hthis : inClass = false → ¬ e.NamesThis) :
    Reached false (.expr e) := by
  refine ready_of_bucketed h hb (fun x hx hsite => ?_) fun hclass x hx hsite => ?_
  · exact Option.not_isSome_iff_eq_none.1 fun hsome => hassigns ⟨x, hx, hsite, hsome⟩
  · exact Option.not_isSome_iff_eq_none.1 fun hsome => hthis hclass ⟨x, hx, hsite, hsome⟩

end Annotate

/-! ## Declarations of a file -/

theorem Part.initialiser_mem_members {ms : List Member} {e : Expr} (h : e ∈ ms.filterMap Member.initialiser?) :
    .expr e ∈ Part.members ms := by
  obtain ⟨m, hm, he⟩ := List.mem_filterMap.1 h
  refine Part.mem_members.2 ⟨m, hm, ?_⟩
  cases m with
  | property d => exact .inl ⟨d, e, rfl, he, rfl⟩
  | const d => cases he; exact .inr (.inl ⟨d, rfl, rfl⟩)
  | method | traitUse => cases he

theorem Interface.initialiser_mem_members {i : Interface} {e : Expr} (h : e ∈ i.initialisers) :
    .expr e ∈ Part.interfaceMembers i.members := by
  obtain ⟨c, hc, rfl⟩ := List.mem_map.1 h
  obtain ⟨m, hm, hmc⟩ := List.mem_filterMap.1 hc
  cases m with
  | const d =>
    cases hmc
    exact Part.mem_interfaceMembers.2 ⟨_, hm, .inl ⟨c, rfl, rfl⟩⟩
  | _ => cases hmc

/-- The kind of a failure. -/
def failure? {α : Type} : Result α → Option Diagnostic.Kind
  | .error d => some d.kind
  | .ok _ => none

theorem failure?_isSome {α : Type} {r : Result α} (h : (failure? r).isSome = true) : ∃ d, r = .error d := by
  cases r with
  | error d => exact ⟨d, rfl⟩
  | ok a => cases h

namespace SourceFile

open Annotate

theorem throughout_interface {k : SourceFile} (hk : ∀ s ∈ k.stmts, Throughout bucketedShape .file (.stmt s))
    {i : Interface} (hi : i ∈ k.interfaces) : Throughout bucketedShape .file (.iface i) := by
  obtain ⟨d, hd, hright⟩ := List.mem_filterMap.1 hi
  obtain rfl := Sum.getRight?_eq_some_iff.1 hright
  exact throughout_declarationsOf k.stmts hk _ hd

theorem class_ready {k : SourceFile} (hk : ∀ s ∈ k.stmts, Throughout bucketedShape .file (.stmt s))
    {c : Class} (hc : c ∈ k.classes) (hassigns : ∀ e ∈ c.initialisers, ¬ e.AssignsOutside) : c.Ready where
  stamped := (throughout_class hk hc).head.1.1.2 rfl
  methods _ hm := (methods_ready hk hc hm).2
  initialisers e he := by
    have hinit : Throughout bucketedShape .member (.expr e) :=
      (throughout_class hk hc).child (Part.initialiser_mem_members he)
    have hsite : Matches true .member .outside := rfl
    exact initialiser_reached hinit hsite (hassigns e he) nofun

/-- A class or an interface of a file that got through the stages before emission fails for no internal reason, as
long as its property defaults and constants assign no variable outside of their closures, and those of an interface
name no member of `$this`. -/
theorem initialiser_kind_ne_internal {pipeline : Pipeline} {si si' : String} {f g h k : SourceFile}
    {registry : Registry} (hg : f.simplify pipeline si = .ok g) (hsubset : g.violation? = none)
    (hh : g.annotate si' = .ok h) (hk : (h.markAccess.run.run registry).1 = .ok k) (r : Registry) {d : Diagnostic} :
    (∀ c ∈ k.classes, (∀ e ∈ c.initialisers, ¬ e.AssignsOutside) → c.emit r = .error d → d.kind ≠ .internal) ∧
      ∀ i ∈ k.interfaces, (∀ e ∈ i.initialisers, ¬ e.AssignsOutside ∧ ¬ e.NamesThis) → i.emit r = .error d →
        d.kind ≠ .internal := by
  have hmarked := markAccess_throughout hk (annotate_throughout hh (simple_throughout hg hsubset))
  refine ⟨fun c hc hassigns hd => ?_, fun i hi hquiet hd => ?_⟩
  · exact Class.emit_external (class_ready hmarked hc hassigns) r d hd
  · refine Interface.emit_external (fun e he => ?_) r d hd
    have hinit : Throughout bucketedShape .constant (.expr e) :=
      (throughout_interface hmarked hi).child (Interface.initialiser_mem_members he)
    have hsite : Matches false .constant .outside := rfl
    exact initialiser_reached hinit hsite (hquiet e he).1 fun _ => (hquiet e he).2

theorem stages_eq_ok {pipeline : Pipeline} {si : String} {f k : SourceFile} {registry : Registry}
    (hstages : f.stages pipeline si = .ok (k, registry)) :
    ∃ g h : SourceFile, f.simplify pipeline si = .ok g ∧ g.violation? = none ∧ g.annotate si = .ok h ∧
      (h.markAccess.run.run registry).1 = .ok k := by
  unfold stages at hstages
  obtain ⟨g, hg, hstages⟩ := bind_eq_ok.1 hstages
  obtain ⟨h, hh, hstages⟩ := bind_eq_ok.1 hstages
  obtain ⟨names, -, hstages⟩ := bind_eq_ok.1 hstages
  obtain ⟨k, hk, hstages⟩ := bind_eq_ok.1 hstages
  cases hstages
  cases hsubset : g.violation? with
  | none =>
    rw [hsubset] at hh
    exact ⟨g, h, hg, hsubset, hh, hk⟩
  | some v =>
    rw [hsubset] at hh
    cases hh

/-- A class and an interface with the same constants: one is a closure that assigns a variable, and one makes an object
of a class that nobody declares. -/
def strayFile : SourceFile :=
  let assigned : Stmt := .expression (.assign .unknown (.var .unknown "n") (.null .unknown) none)
  let members : List Member :=
    [.const ⟨"GET", .closure .unknown ⟨[], [], [assigned], false, false, false⟩, {}, none, .unknown⟩,
    .const ⟨"NONE", .new .unknown (.named ⟨["Gone"], .unqualified⟩) [], {}, none, .unknown⟩]
  ⟨"stray", [.classDecl ⟨"Stray", none, [], members, false, false, .unknown, none, none⟩,
    .interfaceDecl ⟨"Astray", [], members, .unknown, none⟩]⟩

theorem strayFile_emission : ∃ k registry, strayFile.stages .full "Api" = .ok (k, registry) ∧
    (∃ c ∈ k.classes, (∀ e ∈ c.initialisers, ¬ e.AssignsOutside) ∧
      ∃ d, c.emit registry = .error d ∧ d.kind ≠ .internal) ∧
    ∃ i ∈ k.interfaces, (∀ e ∈ i.initialisers, ¬ e.AssignsOutside ∧ ¬ e.NamesThis) ∧
      ∃ d, i.emit registry = .error d ∧ d.kind ≠ .internal := by
  have hrun : (match strayFile.stages .full "Api" with
      | .ok (k, r) => decide (
          (∃ c ∈ k.classes, (∀ e ∈ c.initialisers, ¬ e.AssignsOutside) ∧ (failure? (c.emit r)).isSome = true) ∧
          ∃ i ∈ k.interfaces, (∀ e ∈ i.initialisers, ¬ e.AssignsOutside ∧ ¬ e.NamesThis) ∧
            (failure? (i.emit r)).isSome = true)
      | .error _ => false) = true := by decide +kernel
  split at hrun
  · next k r hstages =>
    obtain ⟨g, h, hg, hsubset, hh, hk⟩ := stages_eq_ok hstages
    obtain ⟨⟨c, hc, hassigns, hcfails⟩, i, hi, hquiet, hifails⟩ := of_decide_eq_true hrun
    obtain ⟨d, hd⟩ := failure?_isSome hcfails
    obtain ⟨d', hd'⟩ := failure?_isSome hifails
    have hclass := (initialiser_kind_ne_internal hg hsubset hh hk r).1 c hc hassigns hd
    have hinterface := (initialiser_kind_ne_internal hg hsubset hh hk r).2 i hi hquiet hd'
    exact ⟨k, r, hstages, ⟨c, hc, hassigns, d, hd, hclass⟩, i, hi, hquiet, d', hd', hinterface⟩
  · cases hrun

/-- A constant of a class that assigns a variable, and one of an interface that asks for a property. -/
def looseText : String :=
  "<?php class Loose \x7b const K = $n = 1; \x7d interface Lost \x7b const K = $this->n; \x7d"

/-- No stage before emission refuses such constants, and none marks them. -/
theorem looseText_internal : ∃ f k registry, SourceFile.parse "loose" looseText = .ok f ∧
    f.stages .full "Api" = .ok (k, registry) ∧ (∃ c ∈ k.classes, failure? (c.emit registry) = some .internal) ∧
    ∃ i ∈ k.interfaces, failure? (i.emit registry) = some .internal := by
  obtain ⟨f, hparse, hstages⟩ := exists_parse "loose" looseText String.toList_ofList
    (p := fun f => (f.stages .full "Api").toOption.any fun s =>
      (∃ c ∈ s.1.classes, failure? (c.emit s.2) = some .internal) ∧
        ∃ i ∈ s.1.interfaces, failure? (i.emit s.2) = some .internal) (by decide +kernel)
  obtain ⟨⟨k, registry⟩, hok, hfails⟩ := exists_ok_of_any hstages
  exact ⟨f, k, registry, hparse, hok, of_decide_eq_true hfails⟩

end SourceFile

end ClassScript
