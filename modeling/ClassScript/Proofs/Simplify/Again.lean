import ClassScript.Proofs.Grammar.Statement
import ClassScript.Proofs.Simplify.Idempotent
import ClassScript.Proofs.Simplify.Isolation
import ClassScript.Proofs.Tree.Edited
/-!
# Resolving resolved names

A file with resolved names stays as it is when its names are resolved once more, up to one kind of type
(`SourceFile.resolveNames_again`). A type is tested for `self` by its only word, so a type that an import made
the class `\self` is read as the class around it the next time.

The second run stays in the namespaces and classes of the first one. `Again` says what it makes of a part whose
names are resolved.
-/

namespace ClassScript

/-! ## Types that are read once more -/

theorem Name.isSelf_of_isScalar {n : Name} (h : n.isScalar = true) : n.isSelf = false := by
  simp only [isScalar, Bool.and_eq_true, List.contains_iff_mem] at h
  refine Bool.eq_false_iff.2 fun hself => ?_
  obtain ⟨-, hword⟩ := Bool.and_eq_true_iff.1 hself
  have hlower : lower n.first = lower "self" := eq_of_beq hword
  rw [hlower] at h
  exact absurd h.2 (by decide)

/-- The part with its type mapped. -/
def Part.retyped (f : TypeHint → TypeHint) : Part → Part
  | .param p => .param { p with type := p.type.map f }
  | p => p

namespace Part

variable (f : TypeHint → TypeHint) (p : Part)

theorem retyped_children : (p.retyped f).children = p.children := by cases p <;> rfl

theorem retyped_eq_iff : p.retyped f = p ↔ ∀ t ∈ p.ownType?, f t = t := by
  cases p with
  | param q =>
    obtain ⟨n, type, d, r, v, pr, pos⟩ := q
    cases type <;> simp [retyped, ownType?]
  | _ => simp [retyped, ownType?]

end Part

namespace Simplify

/-- A resolved type as it is read in a class. -/
def reread (o : Owner) (t : TypeHint) : TypeHint :=
  if t.name.isSelf then
    match o.cls with
    | some c => { t with name := .global c }
    | none => t
  else t

theorem reread_eq_iff {o : Owner} {t : TypeHint} :
    reread o t = t ↔ (t.name.isSelf = true → ∀ c ∈ o.cls, t.name = .global c) := by
  unfold reread
  split
  · next hself =>
    cases o.cls with
    | none => simp
    | some c =>
      obtain ⟨name, nullable⟩ := t
      simp [hself, eq_comm]
  · next hself => simp [hself]

theorem resolveType_of_resolved {s : Scope} {o : Owner} {t : TypeHint} (ho : o.cls = s.owner)
    (h : t.name.isScalar = true ∨ t.name.IsGlobal) : s.resolveType t = reread o t := by
  unfold reread
  split
  · next hself =>
    have hscalar : t.name.isScalar = false :=
      Bool.eq_false_iff.2 fun hs => absurd hself (by simp [Name.isSelf_of_isScalar hs])
    have hglobal : t.name.IsGlobal := h.resolve_left (by simp [hscalar])
    unfold Name.isSelf at hself
    rw [Scope.resolveType, Scope.resolveTypeName, hscalar, if_neg Bool.false_ne_true, if_pos hself, ho]
    cases s.owner with
    | none => simp only [resolveClass_of_isGlobal s hglobal]
    | some c => rfl
  · next hself => exact resolveType_of_final s h (Bool.eq_false_iff.2 hself)

/-- The names of a part are resolved, those of declarations in their namespace. -/
structure Named (ns : Option Name) (p : Part) : Prop where
  resolved : p.Resolved
  named : p.NamedIn ns

theorem Named.finalClass {s : Scope} {c : Class} (h : Named s.namespaceName (.cls c)) : FinalNames s (.cls c) :=
  ⟨trivial, trivial, h.resolved.names, nofun, h.named⟩

theorem Named.finalInterface {s : Scope} {i : Interface} (h : Named s.namespaceName (.iface i)) :
    FinalNames s (.iface i) := ⟨trivial, trivial, h.resolved.names, nofun, h.named⟩

theorem namedIn_bare (ns : Option Name) (p : Part) : p.bare.NamedIn ns ↔ p.NamedIn ns := by cases p <;> rfl

theorem named_congr {ns : Option Name} {p p' : Part} (h : p'.bare = p.bare) : Named ns p' ↔ Named ns p := by
  have hbare : ∀ q : Part, Named ns q.bare ↔ Named ns q := fun q =>
    ⟨fun h => ⟨q.resolved_bare.1 h.resolved, (namedIn_bare ns q).1 h.named⟩,
      fun h => ⟨q.resolved_bare.2 h.resolved, (namedIn_bare ns q).2 h.named⟩⟩
  rw [← hbare p', h, hbare]

/-! ## The second run -/

/-- A part and what a second run makes of it in a class: types are read once more, and that is all. -/
abbrev Reread : Owner → Part → Part → Prop := Edited ownerBelow fun o _ q p' => p' = q.retyped (reread o)

/-- What a second run makes of a part. -/
structure Again (k : Frame) (p : Part) (ps : List Part) (k' : Frame) : Prop where
  same : k' = k
  stub : ∀ {p'}, ps = [p'] → p'.stub = p.stub
  one : ∀ {o : Owner}, Everywhere Part.namespaceBelow Named k.1 p → o.cls = k.2 → ∃ p', ps = [p'] ∧ Reread o p p'

section Again

variable {k k₁ k' : Frame} {p p' : Part}

theorem Again.keepsStubs : Change.KeepsStubs Again := fun h => h.stub rfl

/-- A part in place of the rebuilt one, which differs from it at most in its type. -/
theorem Again.edited {q : Part} (h : Rebuilt Again k₁ p p' k') (hstub : q.stub = p'.stub)
    (hbelow : ∀ {o : Owner}, Named k.1 p → o.cls = k.2 → k₁ = (p.namespaceBelow k.1, (ownerBelow o p).cls))
    (hq : ∀ {o : Owner}, Named k.1 p' → o.cls = k.2 → q = p'.retyped (reread o)) : Again k p [q] k where
  same := rfl
  stub hp' := by
    cases hp'
    rw [hstub, ← p'.stub_bare, h.bare_eq Again.keepsStubs, p.stub_bare]
  one hp ho := by
    have hnamed := (named_congr (h.bare_eq Again.keepsStubs)).2 hp.head
    cases hbelow hp.head ho
    exact ⟨q, rfl, .of_rebuilt Again.same h (fun c hc _ hchange => hchange.one (hp.child hc) rfl) (hq hnamed ho)⟩

/-- The rebuilt part itself. -/
theorem Again.rebuilt (h : Rebuilt Again k p p' k') (hp' : ∀ f, p'.retyped f = p')
    (hbelow : ∀ {o : Owner}, p.namespaceBelow k.1 = k.1 ∧ ownerBelow o p = o) : Again k p [p'] k' := by
  cases h.children.same Again.same
  refine .edited h rfl (fun {o} _ ho => ?_) fun _ _ => (hp' _).symm
  rw [(hbelow (o := o)).1, (hbelow (o := o)).2, ho]

end Again

/-- On resolved names the pass reads types once more and leaves all else alone. -/
theorem names_again : Sound framed names Again fun k e e' k' => Rebuilt Again k (.expr e) (.expr e') k' where
  below _ h := h
  array hvs := Logic.map _ (VisitsItem.mapM hvs _) fun _ _ h => .array h
  store hv := hv.inOrder _
  expr h := Logic.bind _ (h _) fun e' k₁ he' s hs => by
    cases he'.children.same Again.same
    refine ⟨_, hs, .edited he' (congrArg Part.expr (s.resolveExpr_stub e')) (fun _ ho => ?_) fun he _ => ?_⟩
    · exact Prod.ext rfl ho.symm
    · exact congrArg Part.expr (resolveExpr_of_isGlobal s he.resolved.names)
  stmt {k st act} h := by
    cases st with
    | nsBlock p n b br =>
      have hblock := gives_inNamespace (Q := fun st => Again k (.stmt (.nsBlock p n b br)) [.stmt st] k) n <|
        Logic.weaken _ (h (n, k.2)) fun _ _ hst => ⟨hst.children.same Again.same,
          .edited hst rfl (fun _ ho => Prod.ext rfl ho.symm) fun _ _ => rfl⟩
      exact Logic.bind _ hblock fun _ _ ⟨hk, hst⟩ => Logic.pure _ (hk ▸ hst)
    | imports p is =>
      intro s hs
      obtain ⟨k₁, hk₁, hst⟩ := h k (is.foldl Scope.importing s) ((frame_importing s is).trans hs)
      exact ⟨k₁, hk₁, .rebuilt hst (fun _ => rfl) ⟨rfl, rfl⟩⟩
    | _ =>
      refine Logic.bind _ (h _) fun st' k₁ hst s hs => ?_
      cases hst.children.same Again.same
      -- the types of catch clauses are looked up behind the statement, but they are global by now
      refine ⟨_, hs, .edited hst rfl (fun _ ho => Prod.ext rfl ho.symm) fun hst _ => ?_⟩
      exact congrArg Part.stmt (resolveStmt_of_isGlobal s hst.resolved.names)
  param {k p act} h s hs := by
    obtain ⟨k₁, hk₁, hp⟩ := h k s hs
    cases hp.children.same Again.same
    have htype : (Part.param (act.run s).1).ownType? = (Part.param p).ownType? := by
      rw [← Part.ownType?_bare, hp.bare_eq Again.keepsStubs, Part.ownType?_bare]
    refine ⟨_, hk₁, .edited hp rfl (fun _ ho => Prod.ext rfl ho.symm) fun {o} hnamed ho => ?_⟩
    have ho : o.cls = s.owner := ho.trans (congrArg Prod.snd hs).symm
    refine congrArg (fun type => Part.param { (act.run s).1 with type }) ?_
    rw [← show (act.run s).1.type = p.type from htype]
    exact Option.map_congr fun t ht => resolveType_of_resolved ho (hnamed.resolved.type t ht)
  closure h := Logic.weaken _ (h _) fun _ _ hc => .rebuilt hc (fun _ => rfl) ⟨rfl, rfl⟩
  clause h := Logic.weaken _ (h _) fun _ _ hc => .rebuilt hc (fun _ => rfl) ⟨rfl, rfl⟩
  method h := Logic.weaken _ (h _) fun _ _ hm => .rebuilt hm (fun _ => rfl) ⟨rfl, rfl⟩
  cls {_ c _} h s := by
    rintro rfl
    -- the class is entered under the name that the scope gives it, which is the one it already has
    have hclass := gives_inside (k := s.frame) (Q := fun c' => Again s.frame (.cls c)
      [.cls { c' with
        qualified := some (s.qualify c.name)
        parent := c.parent.map s.resolveClass
        interfaces := c.interfaces.map s.resolveClass }] s.frame) (s.qualify c.name) <|
      Logic.weaken _ (h _) fun c' _ hc => by
        refine ⟨hc.children.same Again.same, .edited hc rfl (fun hnamed _ => ?_) fun hnamed _ => ?_⟩
        · exact Prod.ext rfl (congrArg (fun q => some (q.getD c.name)) (show _ = c.qualified from hnamed.named.symm))
        · cases hc with
          | leaf | cls => exact congrArg Part.cls (named_class (s := s) hnamed.finalClass)
    obtain ⟨k', hframe, rfl, hagain⟩ := hclass s rfl
    exact ⟨_, hframe, hagain⟩
  iface {_ i _} h s := by
    rintro rfl
    have hinterface := gives_inside (k := s.frame) (Q := fun i' => Again s.frame (.iface i)
      [.iface { i' with
        qualified := some (s.qualify i.name)
        parents := i.parents.map s.resolveClass }] s.frame) (s.qualify i.name) <|
      Logic.weaken _ (h _) fun i' _ hi => by
        refine ⟨hi.children.same Again.same, .edited hi rfl (fun hnamed _ => ?_) fun hnamed _ => ?_⟩
        · exact Prod.ext rfl (congrArg (fun q => some (q.getD i.name)) (show _ = i.qualified from hnamed.named.symm))
        · cases hi with
          | leaf | iface => exact congrArg Part.iface (named_interface (s := s) hnamed.finalInterface)
    obtain ⟨k', hframe, rfl, hagain⟩ := hinterface s rfl
    exact ⟨_, hframe, hagain⟩

/-! ## Files -/

/-- Behind the first run all names are resolved, those of declarations in their namespaces. -/
theorem resolveNames_named (ss : List Stmt) :
    ∀ s ∈ (resolveNames ss).1, Everywhere Part.namespaceBelow Named none (.stmt s) := by
  intro s hs x hx
  have hresolved := Carried.ofStmts (b := ()) ((names_sound stable_anyShape.names).stmts ss () {}) trivial
    (fun s _ => throughout_of_all fun _ _ _ => trivial) s hs
  have hall : Everywhere Part.namespaceBelow (fun _ => Part.Resolved) none (.stmt s) :=
    everywhere_of_all (hresolved.all And.right)
  exact ⟨hall x hx, names_placed ss s hs x hx⟩

theorem resolveNames_reread (ss : List Stmt) :
    let once := (resolveNames ss).1
    List.Forall₂ (Reread {}) (Part.stmts once) (Part.stmts (resolveNames once).1) := by
  intro once
  obtain ⟨_, -, hstmts⟩ := names_again.stmts once (none, none) {} rfl
  have hchildwise : Change.Stmts (Childwise (Reread {})) () once (resolveNames once).1 () :=
    hstmts.steady Again.same fun s hs _ hchange => hchange.one (resolveNames_named ss s hs) rfl
  exact hchildwise.chunks.forall₂

end Simplify

namespace SourceFile

open Simplify

/-- A second run reads the types of parameters once more, and that is all. So it changes nothing if and only if no
type in a class is `self`, unless that is the name of the class. -/
theorem resolveNames_again (f : SourceFile) :
    let once := f.resolveNames
    List.Forall₂ (Reread {}) (Part.stmts once.stmts) (Part.stmts once.resolveNames.stmts) ∧
    (once.resolveNames = once ↔ ∀ x ∈ once.within ownerBelow {}, ∀ t ∈ x.2.ownType?, t.name.isSelf = true →
      ∀ c ∈ x.1.cls, t.name = .global c) := by
  intro once
  have hreread := resolveNames_reread f.stmts
  have hstmts : once.resolveNames = once ↔ Part.stmts once.resolveNames.stmts = Part.stmts once.stmts := by
    rw [Part.stmts, Part.stmts, List.map_inj_right fun _ _ => Part.stmt.inj]
    exact ⟨congrArg SourceFile.stmts, congrArg (SourceFile.mk f.path)⟩
  refine ⟨hreread, hstmts.trans ((Edited.list_eq_iff (fun _ _ => Part.retyped_children _ _) hreread).trans ?_)⟩
  simp only [Everywhere, Part.retyped_eq_iff, reread_eq_iff, within, List.mem_flatMap]
  constructor
  · rintro h x ⟨p, hp, hx⟩
    exact h p hp x hx
  · exact fun h p hp x hx => h x ⟨p, hp, hx⟩

/-- A class with a parameter whose type is imported as the class `self`. -/
def importedSelfText : String :=
  "<?php use self as X; class C \x7b public function f(X $a) \x7b\x7d \x7d"

theorem importedSelf_resolveNames : ∃ f, SourceFile.parse "self" importedSelfText = .ok f ∧
    f.resolveNames.resolveNames ≠ f.resolveNames := by
  obtain ⟨f, hparse, hrun⟩ := exists_parse "self" importedSelfText String.toList_ofList
    (p := fun f => f.resolveNames.parts.filterMap Part.ownType? = [⟨.global "self", false⟩] ∧
      f.resolveNames.resolveNames.parts.filterMap Part.ownType? = [⟨.global "C", false⟩]) (by decide +kernel)
  obtain ⟨honce, htwice⟩ := of_decide_eq_true hrun
  refine ⟨f, hparse, fun h => ?_⟩
  rw [h, honce] at htwice
  exact absurd htwice (by decide)

end SourceFile

end ClassScript
