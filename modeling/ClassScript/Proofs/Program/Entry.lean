import ClassScript.Proofs.Program.Compiled
import ClassScript.Proofs.Registry.Behind
import ClassScript.Proofs.Script.Load
import ClassScript.Proofs.Session.Prepared
/-!
# The call that starts a program

The call passes a new object for each script API that the entry class is known to ask for. These are the
types of the parameters of its own constructors, provided that the class itself lists the script interface.
But a class may as well have that interface through its parent or through another interface, and the
constructor that runs may be an inherited one. So the call supplies the constructor exactly if it takes the
parameters that were looked at (`Program.entryCall_supplies_iff`).
-/

namespace ClassScript

open Emit Script

/-- The parameters of the constructor that runs for a class: the last one that the class declares, or else
the one that runs for its parent. -/
inductive Runs (classes : List Class) : String → List Param → Prop
  | own {c : Class} {m : Method} : c ∈ classes → lastConstructor? c = some m →
      Runs classes c.qualifiedName m.params
  | inherited {c : Class} {p : Name} {params : List Param} : c ∈ classes → lastConstructor? c = none →
      c.parent = some p → Runs classes p.joined params → Runs classes c.qualifiedName params
  | bare {c : Class} : c ∈ classes → lastConstructor? c = none → c.parent = none →
      Runs classes c.qualifiedName []

/-- The parameters that the call looks at. -/
def Class.askedParams (si : String) (c : Class) : List Param := if c.lists si then c.constructorParams else []

/-- What runs is the last of the constructors that the call may look at. -/
theorem constructorParams_of_last {c : Class} {m : Method} (h : lastConstructor? c = some m) :
    ∃ earlier, c.constructorParams = earlier ++ m.params := by
  obtain ⟨ms, hms⟩ := List.getLast?_eq_some_iff.1 h
  exact ⟨ms.flatMap (·.params), by simp [Class.constructorParams, hms]⟩

theorem constructorParams_of_none {c : Class} (h : lastConstructor? c = none) : c.constructorParams = [] := by
  simp [Class.constructorParams, List.getLast?_eq_none_iff.1 h]

theorem Options.withEntry_scriptInterface (o : Options) (entry : Path) :
    (o.withEntry entry).scriptInterface = o.scriptInterface := by
  unfold withEntry
  split <;> rfl

theorem Options.withEntry_entryMethod (o : Options) (entry : Path) :
    (o.withEntry entry).entryMethod = o.entryMethod := by
  unfold withEntry
  split <;> rfl

namespace Program

/-- A call of the constructor of a class. -/
def construction (cls : String) (args : List Node) : Node :=
  .call (.property (pathNode rootName (Name.partsOf cls)) (keyNode constructorName)) args

/-- The arguments construct what implements the script APIs that the parameters ask for, one by one. -/
def Supplies (args : List Node) (params : List Param) : Prop :=
  List.Forall₂ (fun arg p => ∃ api cls, p.Asks api ∧ ScriptApi.implementation? api = some cls ∧
    arg = construction cls []) args params

theorem methodCall_eq {o n : Node} {name : String} {args : List Node} (h : methodCall o name args = .ok n) :
    n = .call (.property o (keyNode name)) args := by
  obtain ⟨m, hm, h⟩ := bind_eq_ok.1 h
  rw [(call_eq_ok.1 h).2.2, (member_eq_ok.1 hm).2]

theorem apiInstance_eq {api : String} {n : Node} (h : apiInstance api = .ok n) :
    ∃ cls, ScriptApi.implementation? api = some cls ∧ n = construction cls [] := by
  unfold apiInstance at h
  split at h
  · next cls hcls =>
    obtain ⟨o, ho, h⟩ := bind_eq_ok.1 h
    rw [methodCall_eq (mapError_eq_ok.1 h), classPath_eq_ok.1 (mapError_eq_ok.1 ho)]
    exact ⟨cls, hcls, rfl⟩
  · cases h

/-- The call of a method of a new object. -/
def startCall (cls : String) (args : List Node) (method : String) : Node :=
  .statement (.call (.property (construction cls args) (keyNode method)) [])

theorem entryCall_eq {p : Parts} {call : Node} (h : entryCall p = .ok call) :
    ∃ args, p.scriptApis.mapM apiInstance = .ok args ∧ call = startCall p.entryClass args p.entryMethod := by
  obtain ⟨args, hargs, h⟩ := bind_eq_ok.1 h
  obtain ⟨o, ho, h⟩ := bind_eq_ok.1 h
  obtain ⟨made, hmade, h⟩ := bind_eq_ok.1 h
  obtain ⟨run, hrun, h⟩ := bind_eq_ok.1 h
  refine ⟨args, hargs, ?_⟩
  rw [(statement_eq_ok.1 (mapError_eq_ok.1 h)).2, methodCall_eq (mapError_eq_ok.1 hrun),
    methodCall_eq (mapError_eq_ok.1 hmade), classPath_eq_ok.1 (mapError_eq_ok.1 ho)]
  rfl

/-- A call stands at the end of the program. -/
def EndsWith (program : Program) (call : Node) : Prop :=
  ∃ sections text, call.print = .ok text ∧ program.text = "\n\n".intercalate (sections ++ [text]) ++ "\n"

/-- A list of arguments supplies only lists of its length. -/
theorem Supplies.length_eq {args : List Node} {params params' : List Param} (h : Supplies args params)
    (h' : Supplies args params') : params.length = params'.length :=
  (List.Forall₂.length_eq h).symm.trans (List.Forall₂.length_eq h')

end Program

section Reached

variable {r : Registry} {classes : List Class} {interfaces : List Interface} (hrecords : r.Records classes interfaces)

include hrecords

/-- In an order of the classes, the constructor of each is found by way of its parents. -/
theorem exists_runs {order : List String} (hbehind : EachBehind (fun before n => r.parentOf n ⊆ before) order)
    (hclasses : ∀ n ∈ order, ∃ c ∈ classes, c.qualifiedName = n) :
    ∀ n ∈ order, ∃ params, Runs classes n params := by
  refine EachBehind.forall_of_step fun before n behind hsplit hbefore => ?_
  obtain ⟨c, hc, rfl⟩ := hclasses n (by simp [hsplit])
  cases hlast : lastConstructor? c with
  | some m => exact ⟨m.params, .own hc hlast⟩
  | none =>
    cases hparent : c.parent with
    | none => exact ⟨[], .bare hc hlast hparent⟩
    | some p =>
      obtain ⟨e, he, htells⟩ := hrecords.class? hc
      have hp : p.joined ∈ r.parentOf c.qualifiedName := by
        simp [Registry.parentOf, he, htells.parent, hparent]
      obtain ⟨params, hruns⟩ := hbefore p.joined (hbehind before _ behind hsplit hp)
      exact ⟨params, .inherited hc hlast hparent hruns⟩

/-- The constructor that runs is the last one that the class declares, if there is one. -/
theorem Runs.of_class {c : Class} (hc : c ∈ classes) {params : List Param}
    (h : Runs classes c.qualifiedName params) :
    (∃ m, lastConstructor? c = some m ∧ params = m.params) ∨ lastConstructor? c = none := by
  generalize hname : c.qualifiedName = n at h
  cases h with
  | @own c' m hc' hlast =>
    cases hrecords.class_ext hc hc' hname
    exact .inl ⟨m, hlast, rfl⟩
  | inherited hc' hlast | bare hc' hlast =>
    cases hrecords.class_ext hc hc' hname
    exact .inr hlast

/-- The arguments for what was looked at fit the constructor that runs only if just that was looked at. -/
theorem supplies_iff {si : String} {c : Class} (hc : c ∈ classes) {args : List Node} {params : List Param}
    (hasked : Program.Supplies args (c.askedParams si)) (hruns : Runs classes c.qualifiedName params) :
    Program.Supplies args params ↔ params = c.askedParams si := by
  refine ⟨fun h => ?_, fun h => h ▸ hasked⟩
  have hlength := h.length_eq hasked
  unfold Class.askedParams at hlength ⊢
  split at hlength
  · next hlists =>
    rw [if_pos hlists]
    rcases hruns.of_class hrecords hc with ⟨m, hlast, rfl⟩ | hlast
    · obtain ⟨earlier, hparams⟩ := constructorParams_of_last hlast
      rw [hparams, List.length_append] at hlength
      rw [hparams, List.eq_nil_of_length_eq_zero (by omega : earlier.length = 0), List.nil_append]
    · rw [constructorParams_of_none hlast] at hlength ⊢
      exact List.eq_nil_of_length_eq_zero hlength
  · next hlists =>
    rw [if_neg hlists]
    exact List.eq_nil_of_length_eq_zero hlength

end Reached

/-- A file as it is read, with its names resolved, and what the session makes of it. -/
def IsSource (env : Setting) (source unit : SourceFile) : Prop :=
  ∃ path pipeline text f, env.files.read path = .ok text ∧ SourceFile.parse path.text text = .ok f ∧
    source = f.named ∧ env.prepare path pipeline text = .ok unit

theorem IsSource.declares {env : Setting} {source unit : SourceFile} (h : IsSource env source unit) :
    source.Declares (Class.Prepares env.options.scriptInterface) unit := by
  obtain ⟨path, pipeline, text, f, -, hparse, rfl, hprepare⟩ := h
  obtain ⟨f', hparse', hdeclares⟩ := Setting.prepare_declares hprepare
  cases hparse.symm.trans hparse'
  exact hdeclares

theorem IsSource.unasked {env : Setting} {source unit : SourceFile} (h : IsSource env source unit) :
    ∀ c ∈ source.classes, c.scriptApis = none := by
  obtain ⟨path, pipeline, text, f, -, hparse, rfl, -⟩ := h
  exact SourceFile.parse_unasked hparse

/-- Every file of a session has a source. -/
theorem exists_sources {env : Setting} {entry : Path} {s : Session} (h : Session.run env entry = .ok s) :
    ∃ sources, List.Forall₂ (IsSource env) sources s.units := by
  have hall : ∀ unit ∈ s.units, ∃ source, IsSource env source unit := by
    intro unit hunit
    obtain ⟨path, pipeline, text, htext, hprepare⟩ := Session.run_prepared h unit hunit
    obtain ⟨f, hparse, -⟩ := Setting.prepare_declares hprepare
    exact ⟨f.named, path, pipeline, text, f, htext, hparse, rfl, hprepare⟩
  generalize s.units = units at hall
  induction units with
  | nil => exact ⟨[], .nil⟩
  | cons unit units ih =>
    obtain ⟨hunit, hunits⟩ := List.forall_mem_cons.1 hall
    obtain ⟨source, hsource⟩ := hunit
    obtain ⟨sources, hsources⟩ := ih hunits
    exact ⟨source :: sources, .cons hsource hsources⟩

namespace Program

/-- The script APIs of a class that is declared. -/
theorem scriptApisOf_eq {r : Registry} {units : List SourceFile}
    (hrecords : r.Records (units.flatMap (·.classes)) (units.flatMap (·.interfaces))) {c : Class}
    (hc : c ∈ units.flatMap (·.classes)) : Compile.scriptApisOf units c.qualifiedName = c.scriptApis.getD [] := by
  unfold Compile.scriptApisOf
  split
  · next c' path hfound =>
    have hc' := Compile.mem_classesOf (List.mem_of_find?_eq_some hfound)
    rw [hrecords.class_ext hc' hc (eq_of_beq (List.find?_some hfound :))]
  · next hfound =>
    obtain ⟨f, hf, hc⟩ := List.mem_flatMap.1 hc
    have hmem : (c, f.path) ∈ Compile.classesOf units := List.mem_flatMap.2 ⟨f, hf, List.mem_map_of_mem hc⟩
    exact absurd (List.find?_eq_none.1 hfound _ hmem) (by simp)

/-- What the call passes is what the class asks for as far as it is looked at. -/
theorem supplies_askedParams {si : String} {c c' : Class} (h : c.Prepares si c') (hc : c.scriptApis = none)
    {args : List Node} (hargs : (c'.scriptApis.getD []).mapM apiInstance = .ok args) :
    Supplies args (c.askedParams si) := by
  unfold Class.askedParams
  split
  · next hlists =>
    obtain ⟨apis, hapis, hasks⟩ := h.listed hlists
    rw [hapis] at hargs
    refine forall₂_trans (fun arg api p harg hp => ?_) (forall₂_of_mapM hargs).flip hasks.flip
    obtain ⟨cls, hcls, rfl⟩ := apiInstance_eq harg
    exact ⟨api, cls, hp, hcls, rfl⟩
  · next hlists =>
    rw [h.unlisted (by simpa using hlists), hc] at hargs
    cases hargs
    exact .nil

theorem entryClass_mem {r : Registry} {o : Options} {entry : String} (h : Compile.entryClass r o = .ok entry) :
    ∃ e ∈ r.classes, e.name = entry := by
  unfold Compile.entryClass at h
  split at h
  · next n hn =>
    split at h
    · cases h
      have hmem : entry ∈ r.implementing o.scriptInterface := by simp [hn]
      exact List.mem_map.1 (List.mem_filter.1 hmem).1
    · cases h
  · cases h
  · cases h

section Reached

variable {files : FileSystem} {options : Options} {entry : Path} {st : Stages} {sources : List SourceFile}
  (hreached : st.Reached files options entry)
  (hsources : List.Forall₂ (IsSource (settingFor files options entry)) sources st.session.units)

include hreached hsources

/-- What becomes of the classes of the sources up to the marking of access. -/
theorem sources_declare :
    List.Forall₂ (SourceFile.Declares (Class.Prepares (options.withEntry entry).scriptInterface)) sources
      st.units := by
  refine forall₂_trans (fun source unit unit' hsource hmarked => ?_) hsources
    (SourceFile.mapM_markAccess SourceFile.markAccess_declares hreached.marked).1
  exact declares_trans (fun _ _ _ h h' => h.same h') hsource.declares hmarked

theorem sources_records :
    st.registry.Records (sources.flatMap (·.classes)) (sources.flatMap (·.interfaces)) :=
  (Registry.Records.iff_of_declares (fun _ _ h => h.keeps) (sources_declare hreached hsources)).2 hreached.records

/-- The class of the sources that an emitted class comes from. -/
theorem exists_source {c' : Class} (hc' : c' ∈ st.units.flatMap (·.classes)) :
    ∃ c ∈ sources.flatMap (·.classes), c.qualifiedName = c'.qualifiedName ∧
      c.Prepares (options.withEntry entry).scriptInterface c' := by
  have hclasses : List.Forall₂ (Class.Prepares (options.withEntry entry).scriptInterface)
      (sources.flatMap (·.classes)) (st.units.flatMap (·.classes)) :=
    List.rel_flatMap (sources_declare hreached hsources) fun _ _ h => h.classes
  obtain ⟨c, hc, hprepares⟩ := exists_of_forall₂ hclasses hc'
  exact ⟨c, hc, hprepares.keeps.name.symm, hprepares⟩

theorem exists_runs_of_reached {c : Class} (hc : c ∈ sources.flatMap (·.classes)) :
    ∃ params, Runs (sources.flatMap (·.classes)) c.qualifiedName params := by
  have hrecords := sources_records hreached hsources
  obtain ⟨_, order, -, horder, -, hemitted, -⟩ := Compile.parts_eq_ok hreached.made
  obtain ⟨hbehind, hall⟩ := Registry.classOrder_behind (List.nodup_append.1 hrecords.nodup).1 horder
  refine exists_runs hrecords hbehind (fun n hn => ?_) _ ?_
  · obtain ⟨x, -, hx⟩ := exists_of_forall₂ hemitted.flip hn
    obtain ⟨c', hc', hname, -⟩ := Compile.emitClass_eq_ok hx
    obtain ⟨c, hc, hsame, -⟩ := exists_source hreached hsources hc'
    exact ⟨c, hc, hsame.trans hname⟩
  · obtain ⟨e, he, htells⟩ := exists_of_forall₂ hrecords.classes hc
    exact htells.name ▸ hall e he

omit hsources in
theorem endsWith_startCall : ∃ args, st.parts.scriptApis.mapM apiInstance = .ok args ∧
    st.program.EndsWith (startCall st.program.entryClass args options.entryMethod) := by
  obtain ⟨hclass, -, root, boxed, texts, call, text, -, hcall, hprint, htext⟩ := assemble_eq_ok hreached.assembled
  obtain ⟨args, hargs, rfl⟩ := entryCall_eq hcall
  obtain ⟨_, _, -, -, -, -, -, -, hmethod⟩ := Compile.parts_eq_ok hreached.made
  rw [hmethod, options.withEntry_entryMethod, ← hclass] at hprint
  exact ⟨args, hargs, preludeSection :: root :: boxed :: texts, text, hprint, htext⟩

/-- A class that is emitted with one constructor has one in the sources. -/
theorem exists_constructor {c' : Class} (hc' : c' ∈ st.units.flatMap (·.classes)) {n : Nat}
    (hconstructors : (c'.methods.filter Method.isConstructor).map (·.params.length) = [n]) :
    ∃ c ∈ sources.flatMap (·.classes), c.qualifiedName = c'.qualifiedName ∧ (∀ i, c.lists i = c'.lists i) ∧
      ∃ m, c.methods.filter Method.isConstructor = [m] ∧ m.params.length = n := by
  obtain ⟨c, hc, hname, hprepares⟩ := exists_source hreached hsources hc'
  refine ⟨c, hc, hname, fun i => (hprepares.keeps.lists i).symm, ?_⟩
  obtain ⟨m', hm', rfl⟩ := List.map_eq_singleton_iff.1 hconstructors
  have hkept := hprepares.keeps.constructors
  rw [hm'] at hkept
  obtain ⟨m, _, hm, hrest, hlist⟩ := List.forall₂_cons_right_iff.1 hkept
  cases hrest
  exact ⟨m, hlist, hm.params.length_eq⟩

end Reached

/-- The call that starts a program stands at its end. It passes what the parameters ask for that it looks at:
those of the constructors that the entry class itself declares, if it is the class itself that lists the
script interface, and no others. There always is a constructor that runs, and the call supplies it exactly if
it takes these parameters. -/
theorem entryCall_supplies_iff {files : FileSystem} {options : Options} {entry : Path} {program : Program}
    (h : compile files options entry = .ok program) :
    ∃ (st : Stages) (sources : List SourceFile), st.Reached files options entry ∧ st.program = program ∧
      List.Forall₂ (IsSource (settingFor files options entry)) sources st.session.units ∧
      ∃ c ∈ sources.flatMap (·.classes), c.qualifiedName = program.entryClass ∧
        ∃ args, program.EndsWith (startCall program.entryClass args options.entryMethod) ∧
          Supplies args (c.askedParams options.scriptInterface) ∧
          (∃ params, Runs (sources.flatMap (·.classes)) program.entryClass params) ∧
          ∀ params, Runs (sources.flatMap (·.classes)) program.entryClass params →
            (Supplies args params ↔ params = c.askedParams options.scriptInterface) := by
  obtain ⟨st, hreached, rfl⟩ := compile_eq_ok_iff.1 h
  obtain ⟨sources, hsources⟩ := exists_sources hreached.ran
  obtain ⟨e, he, hname⟩ := entryClass_mem hreached.started
  obtain ⟨c', hc', htells⟩ := exists_of_forall₂ hreached.records.classes.flip he
  obtain ⟨c, hc, hsame, hprepares⟩ := exists_source hreached hsources hc'
  have hentry : c.qualifiedName = st.program.entryClass :=
    ((hsame.trans htells.name.symm).trans hname).trans (assemble_eq_ok hreached.assembled).1.symm
  obtain ⟨args, hargs, hends⟩ := endsWith_startCall hreached
  obtain ⟨_, _, -, -, -, -, -, hapis, -⟩ := Compile.parts_eq_ok hreached.made
  obtain ⟨source, hsource, hcs⟩ := List.mem_flatMap.1 hc
  obtain ⟨unit, -, hunit⟩ := exists_of_forall₂ hsources.flip hsource
  rw [hapis, ← hname, htells.name, scriptApisOf_eq hreached.records hc'] at hargs
  have hasked := supplies_askedParams hprepares (IsSource.unasked hunit c hcs) hargs
  rw [options.withEntry_scriptInterface] at hasked
  refine ⟨st, sources, hreached, rfl, hsources, c, hc, hentry, args, hends, hasked, ?_⟩
  rw [← hentry]
  exact ⟨exists_runs_of_reached hreached hsources hc, fun params hruns =>
    supplies_iff (sources_records hreached hsources) hc hasked hruns⟩

/-- The entry class itself lists the script interface. -/
def directScript : FileSystem where
  entries := [(["main"], .text ("namespace Phpjs\\Api \x7b interface Console \x7b \x7d \x7d " ++
    "namespace Phpjs\\Shim \x7b class Console \x7b \x7d \x7d " ++
    "namespace \x7b interface Script \x7b \x7d class Main implements Script \x7b " ++
    "function __construct(\\Phpjs\\Api\\Console $c) \x7b \x7d function run() \x7b \x7d \x7d \x7d"))]

theorem directScript_supplied : ∃ (program : Program) (st : Stages) (sources : List SourceFile) (args : List Node)
    (params : List Param), compile directScript { scriptInterface := "Script" } ⟨"/main"⟩ = .ok program ∧
    st.Reached directScript { scriptInterface := "Script" } ⟨"/main"⟩ ∧ st.program = program ∧
    List.Forall₂ (IsSource (settingFor directScript { scriptInterface := "Script" } ⟨"/main"⟩)) sources
      st.session.units ∧
    program.entryClass = "Main" ∧ program.EndsWith (startCall "Main" args "run") ∧
    Runs (sources.flatMap (·.classes)) "Main" params ∧ params.length = 1 ∧ Supplies args params := by
  obtain ⟨st, hreached, hcompile, hentry, c', hc', hname, hlists, hconstructors⟩ :=
    Stages.exists_reached 8 directScript { scriptInterface := "Script" } ⟨"/main"⟩ rfl
      (toList_append_eq (toList_append_eq (toList_append_eq String.toList_ofList String.toList_ofList)
        String.toList_ofList) String.toList_ofList)
      (P := fun st => st.program.entryClass = "Main" ∧
      ∃ c ∈ st.units.flatMap (·.classes), c.qualifiedName = "Main" ∧ c.lists "Script" = true ∧
        (c.methods.filter Method.isConstructor).map (·.params.length) = [1])
      (by decide +kernel)
  obtain ⟨st', sources, hreached', -, hsources, c, hc, hclass, args, hends, -, -, hiff⟩ :=
    entryCall_supplies_iff hcompile
  cases hreached.unique hreached'
  obtain ⟨c₁, hc₁, hname₁, hlists₁, m, hm, hlength⟩ := exists_constructor hreached hsources hc' hconstructors
  cases (sources_records hreached hsources).class_ext hc hc₁ (by rw [hclass, hentry, hname₁, hname])
  have hruns := Runs.own hc (show lastConstructor? c = some m by rw [lastConstructor?, hm]; rfl)
  have hasked : m.params = c.askedParams "Script" := by
    rw [Class.askedParams, if_pos ((hlists₁ _).trans hlists), Class.constructorParams, hm, List.flatMap_singleton]
  rw [hclass] at hruns
  have hsupplies := (hiff _ hruns).2 hasked
  rw [hentry] at hends hruns
  exact ⟨_, st, sources, args, _, hcompile, hreached, rfl, hsources, hentry, hends, hruns, hlength, hsupplies⟩

/-- The entry class has the script interface through another one. -/
def indirectScript : FileSystem where
  entries := [(["main"], .text ("namespace Phpjs\\Api \x7b interface Console \x7b \x7d \x7d " ++
    "namespace \x7b class TypeError \x7b \x7d interface Script \x7b \x7d interface Job extends Script \x7b \x7d " ++
    "class Main implements Job \x7b function __construct(\\Phpjs\\Api\\Console $c) \x7b \x7d " ++
    "function run() \x7b \x7d \x7d \x7d"))]

theorem indirectScript_unsupplied : ∃ (st : Stages) (sources : List SourceFile) (params : List Param),
    compile indirectScript { scriptInterface := "Script" } ⟨"/main"⟩ = .ok st.program ∧
    st.Reached indirectScript { scriptInterface := "Script" } ⟨"/main"⟩ ∧
    List.Forall₂ (IsSource (settingFor indirectScript { scriptInterface := "Script" } ⟨"/main"⟩)) sources
      st.session.units ∧
    st.program.entryClass = "Main" ∧ st.program.EndsWith (startCall "Main" [] "run") ∧
    Runs (sources.flatMap (·.classes)) "Main" params ∧ params.length = 1 ∧ ¬ Supplies [] params := by
  obtain ⟨st, hreached, hcompile, hentry, hapis, c', hc', hname, hconstructors⟩ :=
    Stages.exists_reached 8 indirectScript { scriptInterface := "Script" } ⟨"/main"⟩ rfl
      (toList_append_eq (toList_append_eq (toList_append_eq String.toList_ofList String.toList_ofList)
        String.toList_ofList) String.toList_ofList)
      (P := fun st => st.program.entryClass = "Main" ∧ st.parts.scriptApis = [] ∧
      ∃ c ∈ st.units.flatMap (·.classes), c.qualifiedName = "Main" ∧
        (c.methods.filter Method.isConstructor).map (·.params.length) = [1])
      (by decide +kernel)
  obtain ⟨sources, hsources⟩ := exists_sources hreached.ran
  obtain ⟨c, hc, hsame, -, m, hm, hlength⟩ := exists_constructor hreached hsources hc' hconstructors
  have hruns := Runs.own hc (show lastConstructor? c = some m by rw [lastConstructor?, hm]; rfl)
  obtain ⟨args, hargs, hends⟩ := endsWith_startCall hreached
  rw [hapis] at hargs
  cases hargs
  rw [hentry] at hends
  rw [hsame, hname] at hruns
  refine ⟨st, sources, m.params, hcompile, hreached, hsources, hentry, hends, hruns, hlength, fun h => ?_⟩
  exact absurd ((List.Forall₂.length_eq h).trans hlength) (by simp)

end Program

end ClassScript
