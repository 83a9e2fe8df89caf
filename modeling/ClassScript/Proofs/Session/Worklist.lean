import ClassScript.Compile
import ClassScript.Proofs.Annotate.Access
import ClassScript.Proofs.Registry.Order
import ClassScript.Proofs.Session.Complete
/-!
# The work list is complete

A session ends for every entry file, file system and locator, and parses no file twice. If it does not
fail, then its files declare the names in the registry, each once, and nothing that they depend on is
missing (`Session.worklist_complete`). So every class and interface that is to be emitted has a
declaration.
-/

namespace ClassScript

/-! ## Classes that a part names -/

/-- The classes named in an instantiation, a test or a constant; `X::class` is only a text. -/
def Expr.classNames : Expr → List Name
  | .new _ (.named n) _ | .instanceOf _ _ (.named n) => [n]
  | .classConst _ (.named n) member => if sameWord member "class" then [] else [n]
  | _ => []

/-- The classes that a part names itself, those in catch clauses and behind `extends` and
`implements` among them. -/
def Part.classNames : Part → List Name
  | .expr e => e.classNames
  | .clause c => c.types
  | .cls c => c.parent.toList ++ c.interfaces
  | .iface i => i.parents
  | _ => []

theorem Expr.classNames_subset (e : Expr) : e.classNames ⊆ e.mentions := by
  fun_cases classNames e with
  | case1 | case2 => exact List.Subset.refl _
  | case3 _ n member h | case4 _ n member h => simp [mentions, ClassRef.mentions, h]
  | case5 => exact List.nil_subset _

theorem mem_joinedNames {n : Name} {ns : List Name} (h : n ∈ ns) (hn : n.parts ≠ []) :
    n.joined ∈ joinedNames ns :=
  List.mem_map_of_mem (List.mem_filter.2 ⟨h, by simpa using hn⟩)

theorem Part.classNames_mentions {p : Part} {n : Name} (h : n ∈ p.classNames) (hn : n.parts ≠ []) :
    n.joined ∈ p.mentions := by
  cases p with
  | expr e => exact mem_joinedNames (e.classNames_subset h) hn
  | clause c => exact mem_joinedNames h hn
  | cls c => exact List.mem_append_left _ (mem_joinedNames h hn)
  | iface i => exact mem_joinedNames h hn
  | _ => cases h

theorem SourceFile.mem_dependencies {f : SourceFile} {p : Part} (hp : p ∈ f.parts) {n : Name}
    (h : n ∈ p.classNames) (hn : n.parts ≠ []) : n.joined ∈ f.dependencies :=
  List.mem_eraseDups.2 (List.mem_flatMap.2 ⟨p, hp, Part.classNames_mentions h hn⟩)

/-! ## Declarations of emitted names -/

namespace Compile

theorem classesOf_names (units : List SourceFile) :
    (classesOf units).map (·.1.qualifiedName) = units.flatMap (·.classes.map Class.qualifiedName) := by
  simp [classesOf, List.map_flatMap, Function.comp_def]

theorem interfacesOf_names (units : List SourceFile) :
    (interfacesOf units).map (·.1.qualifiedName) =
      units.flatMap (·.interfaces.map Interface.qualifiedName) := by
  simp [interfacesOf, List.map_flatMap, Function.comp_def]

/-- A declaration is found under each declared name. -/
theorem exists_find {α : Type} {ds : List (α × String)} {nameOf : α → String} {name : String}
    (h : name ∈ ds.map (nameOf ·.1)) :
    ∃ d path, ds.find? (nameOf ·.1 == name) = some (d, path) ∧ (d, path) ∈ ds ∧ nameOf d = name := by
  obtain ⟨d, hd, rfl⟩ := List.mem_map.1 h
  have hsome : (ds.find? (nameOf ·.1 == nameOf d.1)).isSome := List.find?_isSome.2 ⟨d, hd, by simp⟩
  obtain ⟨⟨d', path⟩, hfound⟩ := Option.isSome_iff_exists.1 hsome
  have hname := List.find?_some hfound
  exact ⟨d', path, hfound, List.mem_of_find?_eq_some hfound, eq_of_beq hname⟩

/-- Each name in the orders of a registry is emitted from a declaration in the files. -/
structure Declared (r : Registry) (units : List SourceFile) : Prop where
  classes : ∀ order, r.classOrder = .ok order → ∀ n ∈ order,
    ∃ c path, (c, path) ∈ classesOf units ∧ c.qualifiedName = n ∧
      emitClass r units n = do return (n, ← (c.emit r).mapError (·.inFile path))
  interfaces : ∀ order, r.interfaceOrder = .ok order → ∀ n ∈ order,
    ∃ i path, (i, path) ∈ interfacesOf units ∧ i.qualifiedName = n ∧
      emitInterface r units n = do return (n, ← (i.emit r).mapError (·.inFile path))

/-- It is enough that the files declare the names of the registry. -/
theorem Declared.of_names {r : Registry} {units : List SourceFile}
    (hcs : r.classes.map (·.name) = units.flatMap (·.classes.map Class.qualifiedName))
    (his : r.interfaces.map (·.name) = units.flatMap (·.interfaces.map Interface.qualifiedName)) :
    Declared r units where
  classes order horder n hn := by
    have hknown := Registry.classOrder_known horder n hn
    rw [hcs, ← classesOf_names] at hknown
    obtain ⟨c, path, hfound, hmem, hname⟩ := exists_find hknown
    refine ⟨c, path, hmem, hname, ?_⟩
    unfold emitClass
    rw [hfound]
  interfaces order horder n hn := by
    have hknown := Registry.interfaceOrder_known horder n hn
    rw [his, ← interfacesOf_names] at hknown
    obtain ⟨i, path, hfound, hmem, hname⟩ := exists_find hknown
    refine ⟨i, path, hmem, hname, ?_⟩
    unfold emitInterface
    rw [hfound]

end Compile

namespace Session

/-! ## From the entry file on -/

/-- The entry file, with its location if it is parsed. -/
def opening (env : Setting) (entry : Path) : Logged Session :=
  ({} : Session).ingestLogged env entry .full false

/-- The entry file is taken in, and then there is a run. -/
inductive Course (env : Setting) (entry : Path) : List Location → Result Session → Prop
  | failed {d : Diagnostic} : (opening env entry).result = .error d →
      Course env entry (opening env entry).log (.error d)
  | opened {s : Session} {log : List Location} {r : Result Session} :
      (opening env entry).result = .ok s → Run env s log r →
      Course env entry ((opening env entry).log ++ log) r

namespace Course

theorem exists_course (env : Setting) (entry : Path) : ∃ log, Course env entry log (run env entry) := by
  have hrun : run env entry = (opening env entry).result >>= fun s => s.resolve env := by
    rw [opening, ingestLogged_result]
    rfl
  rw [hrun]
  cases hopening : (opening env entry).result with
  | error d => exact ⟨_, .failed hopening⟩
  | ok s =>
    obtain ⟨log, h⟩ := Run.exists_run env s
    exact ⟨_, .opened hopening h⟩

variable {env : Setting} {entry : Path} {log log' : List Location} {r r' : Result Session}

theorem unique (h : Course env entry log r) (h' : Course env entry log' r') : log = log' ∧ r = r' := by
  cases h with
  | failed hopening =>
    cases h' with
    | failed hopening' =>
      cases hopening.symm.trans hopening'
      exact ⟨rfl, rfl⟩
    | opened hopening' => cases hopening.symm.trans hopening'
  | opened hopening hrun =>
    cases h' with
    | failed hopening' => cases hopening.symm.trans hopening'
    | opened hopening' hrun' =>
      cases hopening.symm.trans hopening'
      obtain ⟨rfl, rfl⟩ := hrun.unique hrun'
      exact ⟨rfl, rfl⟩

theorem nodup (h : Course env entry log r) : log.Nodup := by
  have hcases := ingestLogged_cases env {} entry .full false
  cases h with
  | failed =>
    rcases hcases with ⟨hlog, -⟩ | ⟨l, hlog, -, -⟩
    · simp [opening, hlog]
    · simp [opening, hlog]
  | opened hopening hrun =>
    obtain ⟨hnodup, hnew⟩ := hrun.nodup
    rcases hcases with ⟨hlog, -⟩ | ⟨l, hlog, -, hmerge⟩
    · rwa [opening, hlog]
    · rw [opening, hlog]
      rw [opening, ingestLogged_result] at hopening
      obtain ⟨f, hf⟩ := hmerge _ hopening
      refine List.nodup_cons.2 ⟨fun hl => hnew l hl ?_, hnodup⟩
      rw [visited_merge hf]
      exact List.mem_cons_self

end Course

/-! ## Complete sessions -/

/-- The files of a session declare what is in its registry, and nothing that they depend on is
missing. -/
structure Complete (env : Setting) (s : Session) : Prop where
  classes : s.registry.classes.map (·.name) = s.units.flatMap (·.classes.map Class.qualifiedName)
  interfaces : s.registry.interfaces.map (·.name) =
    s.units.flatMap (·.interfaces.map Interface.qualifiedName)
  /-- No name is declared twice. -/
  once : (s.units.flatMap (·.classes.map Class.qualifiedName) ++
    s.units.flatMap (·.interfaces.map Interface.qualifiedName)).Nodup
  /-- What is emitted once access is marked has a declaration. -/
  declared : ∀ units r, (s.units.mapM SourceFile.markAccess).run s.registry = (.ok units, r) →
    Compile.Declared r units
  dependencies : ∀ f ∈ s.units, ∀ n ∈ f.dependencies, Provided env s n
  /-- A name without segments names no class. -/
  references : ∀ f ∈ s.units, ∀ p ∈ f.parts, ∀ n ∈ p.classNames, n.parts ≠ [] → Provided env s n.joined

/-- Marking access in files keeps the names that they declare. -/
theorem names_eq_of_alike {fs fs' : List SourceFile}
    (h : List.Forall₂ (fun f' f => f'.Alike Part.frame f) fs' fs) :
    fs'.flatMap (·.classes.map Class.qualifiedName) = fs.flatMap (·.classes.map Class.qualifiedName) ∧
    fs'.flatMap (·.interfaces.map Interface.qualifiedName) =
      fs.flatMap (·.interfaces.map Interface.qualifiedName) := by
  induction h with
  | nil => exact ⟨rfl, rfl⟩
  | cons hf _ ih =>
    simp only [List.flatMap_cons]
    rw [SourceFile.classNames_eq_of_alike hf, SourceFile.interfaceNames_eq_of_alike hf, ih.1, ih.2]
    exact ⟨rfl, rfl⟩

theorem Sound.complete {env : Setting} {s : Session} (h : Sound env s []) : s.Complete env := by
  have hdependencies : ∀ f ∈ s.units, ∀ n ∈ f.dependencies, Provided env s n := fun f hf n hn =>
    (h.awaited f hf n hn).resolve_right List.not_mem_nil
  refine ⟨h.classes, h.interfaces, ?_, fun units r hmarked => ?_, hdependencies, fun f hf p hp n hn hne => ?_⟩
  · rw [← h.classes, ← h.interfaces]
    exact h.distinct
  · obtain ⟨halike, hentries⟩ := SourceFile.mapM_markAccess_keeps hmarked
    obtain ⟨hcs, his⟩ := Prod.mk.inj hentries
    obtain ⟨hcs', his'⟩ := names_eq_of_alike halike
    exact .of_names (by rw [hcs, h.classes, hcs']) (by rw [his, h.interfaces, his'])
  · exact hdependencies f hf _ (SourceFile.mem_dependencies hp hn hne)

/-- Taking in an entry file and what it depends on ends, whatever the files and the locator are, and
parses no file twice. Unless it fails, the session is complete. -/
theorem worklist_complete (env : Setting) (entry : Path) :
    (∃ log, Course env entry log (run env entry) ∧ log.Nodup ∧
      ∀ log' r, Course env entry log' r → log' = log ∧ r = run env entry) ∧
    ∀ s, run env entry = .ok s → s.Complete env := by
  obtain ⟨log, hcourse⟩ := Course.exists_course env entry
  exact ⟨⟨log, hcourse, hcourse.nodup, fun _ _ h => h.unique hcourse⟩, fun s hs => (run_sound hs).complete⟩

/-- Two files that depend on each other. -/
def mutualFiles : Setting where
  files := { entries := [
    (["main"], .text "class Main extends Base \x7b \x7d"),
    (["base"], .text "class Base \x7b function make() \x7b return new Main(); \x7d \x7d")] }
  options := {}
  locator := {
    isInternal _ := false
    file? name := .ok (if name = "Base" then some ⟨"/base"⟩ else if name = "Main" then some ⟨"/main"⟩ else none) }

theorem mutualFiles_complete : ∃ s, run mutualFiles ⟨"/main"⟩ = .ok s ∧
    s.units.map (·.dependencies) = [["Base"], ["Main"]] ∧ s.Complete mutualFiles ∧
    ∃ log, Course mutualFiles ⟨"/main"⟩ log (.ok s) ∧ log.Nodup := by
  -- one turn, for the parent, leaves the queue empty
  have hturns : (match (opening mutualFiles ⟨"/main"⟩).result with
      | .ok s => match s.turn mutualFiles with
        | some step => match step.result with
          | .ok t => decide (t.queue = [] ∧ t.units.map (·.dependencies) = [["Base"], ["Main"]])
          | .error _ => false
        | none => false
      | .error _ => false) = true := by decide +kernel
  obtain ⟨⟨log, hcourse, hnodup, hunique⟩, hcomplete⟩ := worklist_complete mutualFiles ⟨"/main"⟩
  split at hturns
  · next s hopening =>
    split at hturns
    · next step hturn =>
      split at hturns
      · next t hstep =>
        obtain ⟨hqueue, hdependencies⟩ := of_decide_eq_true hturns
        have hrun := (hunique _ _ (.opened hopening (.next hturn hstep (.done (turn_eq_none_iff.2 hqueue))))).2
        exact ⟨t, hrun.symm, hdependencies, hcomplete t hrun.symm, log, hrun ▸ hcourse, hnodup⟩
      · cases hturns
    · cases hturns
  · cases hturns

end Session

end ClassScript
