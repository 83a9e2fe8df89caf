import ClassScript.Proofs.Annotate.Marks
import ClassScript.Proofs.Registry.Records
import ClassScript.Proofs.Tree.Outline
/-!
# Marking access keeps declarations

The names that a file declares can be told from its outline without expressions
(`declared_eq_of_outline`), which the pass for members of `$this` keeps; and the registry that it asks
keeps its entries (`markAccess_keeps`).
-/

namespace ClassScript

/-! ## Declared names -/

namespace Part

/-- The names that are declared at file level, as classes or as interfaces, from those of the
children. -/
def declaredFrom (p : Part) (below : List (List (String ⊕ String))) : List (String ⊕ String) :=
  match p with
  | .cls c => [.inl c.qualifiedName]
  | .iface i => [.inr i.qualifiedName]
  | .stmt (.classDecl _) | .stmt (.interfaceDecl _) | .stmt (.nsBlock ..) => below.flatten
  | _ => []

def declared (p : Part) : List (String ⊕ String) := p.fold declaredFrom

theorem declared_eq (p : Part) : p.declared = declaredFrom p (p.children.map declared) := fold_eq _ p

/-- A part without what an expression says. -/
def blank : Part → Part
  | .expr _ => .expr (.null .unknown)
  | p => p

/-- The part by itself, expressions left out. -/
def frame (p : Part) : Part := p.bare.blank

theorem declaredFrom_frame (p : Part) (below : List (List (String ⊕ String))) :
    declaredFrom p.frame below = declaredFrom p below := by
  cases p with
  | stmt s => cases s <;> rfl
  | _ => rfl

theorem declared_eq_of_outline {p p' : Part} (h : p.outline frame = p'.outline frame) :
    p.declared = p'.declared :=
  fold_eq_of_outline (fun below hface => by
    rw [← declaredFrom_frame, hface, declaredFrom_frame]) h

end Part

/-- The name of a declaration. -/
def declaredName : Class ⊕ Interface → String ⊕ String := Sum.map Class.qualifiedName Interface.qualifiedName

mutual

theorem declared_stmt : (s : Stmt) → (Part.stmt s).declared = s.declarations.map declaredName
  | .classDecl c => by
    rw [Part.declared_eq]
    exact (List.append_nil _).trans (Part.declared_eq (.cls c))
  | .interfaceDecl i => by
    rw [Part.declared_eq]
    exact (List.append_nil _).trans (Part.declared_eq (.iface i))
  | .nsBlock p n body b => by
    rw [Part.declared_eq]
    exact (List.flatMap_def ..).symm.trans (declared_stmts body)
  | .expression _ | .echo .. | .ret .. | .branch .. | .whileLoop .. | .forLoop ..
  | .foreach .. | .breakLoop _ | .continueLoop _ | .throwValue .. | .tryCatch ..
  | .block .. | .imports .. | .functionDecl .. | .nop _ => by
    rw [Part.declared_eq]
    rfl

theorem declared_stmts : (ss : List Stmt) →
    (Part.stmts ss).flatMap Part.declared = (declarationsOf ss).map declaredName
  | [] => rfl
  | s :: rest => by
    rw [Part.stmts, List.map_cons, List.flatMap_cons, declared_stmt s, declarationsOf, List.map_append]
    exact congrArg _ (declared_stmts rest)

end

namespace SourceFile

variable {f f' : SourceFile}

theorem declarations_eq_of_alike (h : f.Alike Part.frame f') :
    (declarationsOf f.stmts).map declaredName = (declarationsOf f'.stmts).map declaredName := by
  rw [← declared_stmts, ← declared_stmts, List.flatMap_def, List.flatMap_def,
    Part.map_eq_of_outlines (fun _ _ _ => Part.declared_eq_of_outline) h]

/-- Alike files declare the same names of each kind. -/
theorem declarationNames_eq_of_alike {α : Type} {kind : Class ⊕ Interface → Option α} {name : α → String}
    {g : String ⊕ String → Option String} (hkind : ∀ d, (kind d).map name = g (declaredName d))
    (h : f.Alike Part.frame f') : ((declarationsOf f.stmts).filterMap kind).map name =
      ((declarationsOf f'.stmts).filterMap kind).map name := by
  have hnames (ds : List (Class ⊕ Interface)) :
      (ds.filterMap kind).map name = (ds.map declaredName).filterMap g := by
    rw [List.map_filterMap, List.filterMap_map]
    exact List.filterMap_congr fun d _ => hkind d
  rw [hnames, hnames, declarations_eq_of_alike h]

theorem classNames_eq_of_alike (h : f.Alike Part.frame f') :
    f.classes.map Class.qualifiedName = f'.classes.map Class.qualifiedName :=
  declarationNames_eq_of_alike (g := Sum.getLeft?) (fun d => by cases d <;> rfl) h

theorem interfaceNames_eq_of_alike (h : f.Alike Part.frame f') :
    f.interfaces.map Interface.qualifiedName = f'.interfaces.map Interface.qualifiedName :=
  declarationNames_eq_of_alike (g := Sum.getRight?) (fun d => by cases d <;> rfl) h

end SourceFile

/-! ## The pass -/

namespace Annotate

theorem frame_congr {p p' : Part} (h : p'.bare = p.bare) : p'.frame = p.frame := congrArg Part.blank h

theorem withBucket_children (v : Visibility) (e : Expr) :
    (Part.expr (withBucket v e)).children = (Part.expr e).children := by
  cases e <;> rfl

/-- The pass keeps all but expressions, and the entries of the registry. -/
theorem access_outlined :
    Sound (.reading (Option String) (.answered Diagnostic Unit Registry.entries)) access
      (Outlined Part.frame) fun k e e' k' => Rebuilt (Outlined Part.frame) k (.expr e) (.expr e') k' where
  below _ h := h
  array hvs := Logic.map _ (VisitsItem.mapM hvs _) fun _ _ h => .array h
  store hv := hv.inOrder _
  expr {k e act} h := by
    rw [Logic.reading_gives, access_expr_run]
    split
    · next n c hn =>
      refine Logic.bind _ (P := fun _ _ => True) (fun r => ⟨bucketOf_entries c e.pos n r, fun _ _ => trivial⟩)
        fun v _ _ => Logic.bind _ (Logic.reading_gives.1 (h _)) fun e' _ he' => Logic.pure _ ?_
      exact .edited frame_congr he' rfl (congrArg Part.expr (withBucket_stub v e')) (withBucket_children v e')
    · exact Logic.weaken _ (Logic.reading_gives.1 (h _)) fun _ _ => .rebuilt frame_congr
  stmt h := Logic.bind _ (h _) fun _ _ hs => Logic.pure _ (Outlined.rebuilt frame_congr hs)
  param h := Logic.weaken _ (h _) fun _ _ => .rebuilt frame_congr
  closure h := Logic.weaken _ (h _) fun _ _ => .rebuilt frame_congr
  clause h := Logic.weaken _ (h _) fun _ _ => .rebuilt frame_congr
  method h := Logic.weaken _ (h _) fun _ _ => .rebuilt frame_congr
  cls {k c act} h := by
    rw [Logic.reading_gives]
    show (Logic.answered Diagnostic Unit Registry.entries).Gives () (act.run (some c.qualifiedName)) _
    exact Logic.weaken _ (Logic.reading_gives.1 (h _)) fun _ _ hc =>
      (Outlined.rebuilt frame_congr hc).elsewhere _ _
  iface h := Logic.weaken _ (h _) fun _ _ => .rebuilt frame_congr

theorem access_signs : Signs (.reading (Option String) (.answered Diagnostic Unit fun _ => ())) access Class.Same where
  idle := Logic.Idle.reading Logic.Idle.answered
  stmt := Signed.stmtKept
  param := Signed.paramKept
  method := Signed.methodKept
  cls {_ c act} h := by
    rw [Logic.reading_gives]
    show (Logic.answered Diagnostic Unit _).Gives () (act.run (some c.qualifiedName)) _
    exact Logic.weaken _ (Logic.reading_gives.1 (h _)) fun _ _ => Signed.cls
  iface := Signed.ifaceKept

end Annotate

namespace SourceFile

/-- A marked file declares what it did, and the registry keeps its entries. -/
theorem markAccess_keeps {f f' : SourceFile} {r r' : Registry}
    (h : f.markAccess.run.run r = (.ok f', r')) : f'.Alike Part.frame f ∧ r'.entries = r.entries := by
  have hgives : (Logic.reading (Option String) (.answered Diagnostic Unit Registry.entries)).Gives none
      (f.through Annotate.access) fun f' _ => f'.Alike Part.frame f :=
    Logic.bind _ (Annotate.access_outlined.stmts f.stmts none) fun _ _ hss =>
      Logic.pure _ hss.chunks.outlines
  obtain ⟨hentries, hf⟩ := markAccess_gives hgives r
  rw [h] at hentries hf
  exact ⟨hf f' rfl, hentries⟩

theorem markAccess_declares {f f' : SourceFile} {r r' : Registry}
    (h : f.markAccess.run.run r = (.ok f', r')) : f.Declares Class.Same f' := by
  have hgives : (Logic.reading (Option String) (.answered Diagnostic Unit fun _ => ())).Gives none
      (f.through Annotate.access) fun f' _ => f.Declares Class.Same f' :=
    Logic.bind _ (Annotate.access_signs.declarations none f.stmts) fun _ _ hss => Logic.pure _ hss
  refine (markAccess_gives hgives r).2 f' ?_
  rw [h]

/-- What marking does to each file it does to all of them, and the registry keeps its entries. -/
theorem mapM_markAccess {P : SourceFile → SourceFile → Prop}
    (hP : ∀ {f f' : SourceFile} {r r' : Registry}, f.markAccess.run.run r = (.ok f', r') → P f f')
    {fs fs' : List SourceFile} {r r' : Registry} (h : (fs.mapM markAccess).run.run r = (.ok fs', r')) :
    List.Forall₂ P fs fs' ∧ r'.entries = r.entries := by
  induction fs generalizing r fs' with
  | nil =>
    cases h
    exact ⟨.nil, rfl⟩
  | cons f fs ih =>
    rw [List.mapM_cons] at h
    obtain ⟨f', r₁, hf, h⟩ := Registry.query_bind_ok h
    obtain ⟨rest, r₂, hrest, h⟩ := Registry.query_bind_ok h
    cases h
    obtain ⟨hrest, hentries⟩ := ih hrest
    exact ⟨.cons (hP hf) hrest, hentries.trans (markAccess_keeps hf).2⟩

theorem mapM_markAccess_keeps {fs fs' : List SourceFile} {r r' : Registry}
    (h : (fs.mapM markAccess).run.run r = (.ok fs', r')) :
    List.Forall₂ (fun f' f => f'.Alike Part.frame f) fs' fs ∧ r'.entries = r.entries := by
  obtain ⟨halike, hentries⟩ := mapM_markAccess (P := fun f f' => f'.Alike Part.frame f)
    (fun hf => (markAccess_keeps hf).1) h
  exact ⟨halike.flip, hentries⟩

/-- A registry that records files records them as well when access is marked. -/
theorem mapM_markAccess_records {fs fs' : List SourceFile} {r r' : Registry}
    (h : (fs.mapM markAccess).run.run r = (.ok fs', r'))
    (hrecords : r.Records (fs.flatMap (·.classes)) (fs.flatMap (·.interfaces))) :
    r'.Records (fs'.flatMap (·.classes)) (fs'.flatMap (·.interfaces)) := by
  obtain ⟨hdeclares, hentries⟩ := mapM_markAccess markAccess_declares h
  exact ((Registry.Records.iff_of_declares (fun _ _ hc => hc.1) hdeclares).1 hrecords).of_entries hentries

end SourceFile

end ClassScript
