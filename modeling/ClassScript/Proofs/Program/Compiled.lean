import ClassScript.Compile
import ClassScript.Proofs.Annotate.Access
import ClassScript.Proofs.Grammar.Statement
import ClassScript.Proofs.Session.Merged
/-!
# How a program comes about

The stages of a compilation that does not fail, said once (`compile_eq_ok_iff`, `parts_eq_ok`): access is
marked in the files of the session, the declarations are emitted in their orders, and the parts are
assembled.
-/

namespace ClassScript

namespace Compile

/-! ## Declarations -/

theorem mem_classesOf {units : List SourceFile} {c : Class} {path : String} (h : (c, path) ∈ classesOf units) :
    c ∈ units.flatMap (·.classes) := by
  obtain ⟨f, hf, hc⟩ := List.mem_flatMap.1 h
  obtain ⟨c', hc', heq⟩ := List.mem_map.1 hc
  cases heq
  exact List.mem_flatMap.2 ⟨f, hf, hc'⟩

theorem mem_interfacesOf {units : List SourceFile} {i : Interface} {path : String}
    (h : (i, path) ∈ interfacesOf units) : i ∈ units.flatMap (·.interfaces) := by
  obtain ⟨f, hf, hi⟩ := List.mem_flatMap.1 h
  obtain ⟨i', hi', heq⟩ := List.mem_map.1 hi
  cases heq
  exact List.mem_flatMap.2 ⟨f, hf, hi'⟩

theorem emitClass_eq_ok {r : Registry} {units : List SourceFile} {n : String} {x : String × Script.Node}
    (h : emitClass r units n = .ok x) :
    ∃ c ∈ units.flatMap (·.classes), c.qualifiedName = n ∧ x.1 = n ∧ c.emit r = .ok x.2 := by
  unfold emitClass at h
  split at h
  · next c path hfound =>
    obtain ⟨node, hnode, h⟩ := bind_eq_ok.1 h
    cases h
    exact ⟨c, mem_classesOf (List.mem_of_find?_eq_some hfound), eq_of_beq (List.find?_some hfound :), rfl,
      mapError_eq_ok.1 hnode⟩
  · cases h

theorem emitInterface_eq_ok {r : Registry} {units : List SourceFile} {n : String}
    {x : String × List Script.Node} (h : emitInterface r units n = .ok x) :
    ∃ i ∈ units.flatMap (·.interfaces), i.qualifiedName = n ∧ x.1 = n ∧ i.emit r = .ok x.2 := by
  unfold emitInterface at h
  split at h
  · next i path hfound =>
    obtain ⟨nodes, hnodes, h⟩ := bind_eq_ok.1 h
    cases h
    exact ⟨i, mem_interfacesOf (List.mem_of_find?_eq_some hfound), eq_of_beq (List.find?_some hfound :), rfl,
      mapError_eq_ok.1 hnodes⟩
  · cases h

/-! ## Stages -/

theorem parts_eq_ok {r : Registry} {o : Options} {units : List SourceFile} {entry : String}
    {p : Program.Parts} (h : parts r o units entry = .ok p) :
    ∃ interfaces classes, r.interfaceOrder = .ok interfaces ∧ r.classOrder = .ok classes ∧
      List.Forall₂ (fun n x => emitInterface r units n = .ok x) interfaces p.interfaces ∧
      List.Forall₂ (fun n x => emitClass r units n = .ok x) classes p.classes ∧
      p.entryClass = entry ∧ p.scriptApis = scriptApisOf units entry ∧ p.entryMethod = o.entryMethod := by
  obtain ⟨is, his, h⟩ := bind_eq_ok.1 h
  obtain ⟨interfaces, hinterfaces, h⟩ := bind_eq_ok.1 h
  obtain ⟨cs, hcs, h⟩ := bind_eq_ok.1 h
  obtain ⟨classes, hclasses, h⟩ := bind_eq_ok.1 h
  cases h
  exact ⟨is, cs, his, hcs, forall₂_of_mapM hinterfaces, forall₂_of_mapM hclasses, rfl, rfl, rfl⟩

end Compile

namespace Program

open Script

/-- The declarations of a program with the nodes for them, in the order they are emitted. -/
def Parts.blocks (p : Parts) : List (String × List Node) := p.interfaces ++ p.classes.map fun c => (c.1, [c.2])

/-- The sections for declarations, each with the name of its declaration. -/
def Parts.declarationSections (p : Parts) : List (String × Node) := p.blocks.flatMap fun b => b.2.map (b.1, ·)

theorem declarationSections_eq (p : Parts) :
    p.declarationSections = (p.interfaces.flatMap fun b => b.2.map (b.1, ·)) ++ p.classes := by
  simp [Parts.declarationSections, Parts.blocks, List.flatMap_map]

/-- The sections for declarations stand in the text of the program as they are listed, one after the other,
and the call that starts the program stands at its end. -/
theorem assemble_eq_ok {p : Parts} {program : Program} (h : assemble p = .ok program) :
    program.entryClass = p.entryClass ∧ program.declarations = p.blocks.map (·.1) ∧
      ∃ root boxed texts call entry, (p.declarationSections.mapM fun s => (s.2.print : Result String)) = .ok texts ∧
        entryCall p = .ok call ∧ call.print = .ok entry ∧
        program.text = "\n\n".intercalate (preludeSection :: root :: boxed :: (texts ++ [entry])) ++ "\n" := by
  obtain ⟨sections, hsections, h⟩ := bind_eq_ok.1 h
  cases h
  obtain ⟨_, -, hsections⟩ := bind_eq_ok.1 hsections
  obtain ⟨root, -, hsections⟩ := bind_eq_ok.1 hsections
  obtain ⟨_, -, hsections⟩ := bind_eq_ok.1 hsections
  obtain ⟨boxed, -, hsections⟩ := bind_eq_ok.1 hsections
  obtain ⟨interfaces, hinterfaces, hsections⟩ := bind_eq_ok.1 hsections
  obtain ⟨classes, hclasses, hsections⟩ := bind_eq_ok.1 hsections
  obtain ⟨call, hcall, hsections⟩ := bind_eq_ok.1 hsections
  obtain ⟨entry, hentry, hsections⟩ := bind_eq_ok.1 hsections
  cases hsections
  refine ⟨rfl, by simp [Parts.blocks, Function.comp_def], root, boxed, interfaces ++ classes, call, entry, ?_, hcall,
    mapError_eq_ok.1 hentry, rfl⟩
  have hnodes : p.interfaces.flatMap (·.2) = (p.interfaces.flatMap fun b => b.2.map (b.1, ·)).map (·.2) := by
    simp [List.map_flatMap, Function.comp_def]
  rw [hnodes, List.mapM_map] at hinterfaces
  rw [declarationSections_eq, List.mapM_append]
  exact bind_eq_ok.2 ⟨interfaces, hinterfaces, bind_eq_ok.2 ⟨classes, hclasses, rfl⟩⟩

end Program

/-- What a compilation works with. -/
def settingFor (files : FileSystem) (options : Options) (entry : Path) : Setting where
  files
  options := options.withEntry entry
  locator := .standard files (options.withEntry entry)

/-- What a compilation makes: the session that has taken in all files, the registry and the files in which
access is marked, and the program with its parts. -/
structure Stages where
  session : Session
  registry : Registry
  units : List SourceFile
  parts : Program.Parts
  program : Program

/-- The stages that the compilation of a file goes through. -/
structure Stages.Reached (files : FileSystem) (options : Options) (entry : Path) (st : Stages) : Prop where
  ran : Session.run (settingFor files options entry) entry = .ok st.session
  marked : (st.session.units.mapM SourceFile.markAccess).run.run st.session.registry = (.ok st.units, st.registry)
  started : Compile.entryClass st.registry (options.withEntry entry) = .ok st.parts.entryClass
  made : Compile.parts st.registry (options.withEntry entry) st.units st.parts.entryClass = .ok st.parts
  assembled : Program.assemble st.parts = .ok st.program

section

variable {files : FileSystem} {options : Options} {entry : Path} {program : Program} {st st' : Stages}

theorem compile_eq_ok_iff :
    compile files options entry = .ok program ↔
      ∃ st : Stages, st.Reached files options entry ∧ st.program = program := by
  constructor
  · intro h
    obtain ⟨s, hs, h⟩ := bind_eq_ok.1 h
    unfold Compile.program at h
    cases hmarked : (s.units.mapM SourceFile.markAccess).run s.registry with
    | mk marked r =>
      rw [hmarked] at h
      obtain ⟨units, hunits, h⟩ := bind_eq_ok.1 h
      obtain ⟨cls, hcls, h⟩ := bind_eq_ok.1 h
      obtain ⟨p, hp, hprogram⟩ := bind_eq_ok.1 h
      obtain ⟨_, _, -, -, -, -, rfl, -, -⟩ := Compile.parts_eq_ok hp
      cases hunits
      exact ⟨⟨s, r, units, p, program⟩, ⟨hs, hmarked, mapError_eq_ok.1 hcls, hp, hprogram⟩, rfl⟩
  · rintro ⟨st, h, rfl⟩
    have hmarked : (st.session.units.mapM SourceFile.markAccess).run st.session.registry =
        (.ok st.units, st.registry) := h.marked
    refine bind_eq_ok.2 ⟨st.session, h.ran, ?_⟩
    unfold Compile.program
    rw [hmarked]
    refine bind_eq_ok.2 ⟨st.units, rfl, bind_eq_ok.2 ⟨st.parts.entryClass, mapError_eq_ok.2 h.started, ?_⟩⟩
    exact bind_eq_ok.2 ⟨st.parts, h.made, h.assembled⟩

namespace Stages.Reached

theorem unique (h : st.Reached files options entry) (h' : st'.Reached files options entry) : st' = st := by
  obtain ⟨s, r, units, p, program⟩ := st
  obtain ⟨s', r', units', p', program'⟩ := st'
  cases h.ran.symm.trans h'.ran
  cases h.marked.symm.trans h'.marked
  have hmade := h'.made
  rw [Except.ok.inj (h'.started.symm.trans h.started)] at hmade
  cases hmade.symm.trans h.made
  cases h.assembled.symm.trans h'.assembled
  rfl

/-- The registry records what the files declare, behind the marking of access. -/
theorem records (h : st.Reached files options entry) :
    st.registry.Records (st.units.flatMap (·.classes)) (st.units.flatMap (·.interfaces)) :=
  SourceFile.mapM_markAccess_records h.marked (Session.run_records h.ran)

end Stages.Reached

/-! ## Computing the stages -/

/-- The end of a session that takes no more than some turns. -/
def Session.resolveWithin (env : Setting) : Nat → Session → Option Session
  | turns, s => match s.turn env, turns with
    | none, _ => some s
    | some _, 0 => none
    | some step, turns + 1 => step.result.toOption.bind fun t => resolveWithin env turns t

theorem Session.resolveWithin_sound {env : Setting} {turns : Nat} {s t : Session}
    (h : resolveWithin env turns s = some t) : s.resolve env = .ok t := by
  rw [resolve_eq_turn]
  fun_induction resolveWithin env turns s with
  | case1 _ _ hturn => rw [hturn, Option.some.inj h]
  | case2 => cases h
  | case3 s turns step hturn ih =>
    obtain ⟨t', ht', h⟩ := Option.bind_eq_some_iff.1 h
    rw [hturn]
    refine bind_eq_ok.2 ⟨t', toOption_eq_some.1 ht', ?_⟩
    rw [resolve_eq_turn]
    exact ih t' h

/-- What becomes of a file that is read from its characters. -/
def Setting.prepareChars (env : Setting) (path : Path) (cs : List Char) : Result SourceFile := do
  let f ← SourceFile.ofChars path.text cs
  let f ← f.simplify .full env.options.scriptInterface
  f.violation?.elim ((f.annotate env.options.scriptInterface).mapError (·.inFile path.text))
    fun v => throw (v.diagnostic.inFile path.text)

theorem Setting.prepare_eq_prepareChars (env : Setting) (path : Path) {text : String} {cs : List Char}
    (h : text.toList = cs) : env.prepare path .full text = env.prepareChars path cs := by
  rw [prepare, prepareChars, SourceFile.parse_eq_ofChars path.text h]
  refine bind_congr fun f => bind_congr fun g => ?_
  cases g.violation? <;> rfl

namespace Session

/-- The session after an entry file with these characters, if it takes no more than some turns. -/
def runWithin (turns : Nat) (env : Setting) (entry : Path) (l : Location) (cs : List Char) : Option Session :=
  ((env.prepareChars entry cs).toOption.bind fun f => (({} : Session).merge l f false).toOption).bind
    (resolveWithin env turns)

theorem runWithin_sound {turns : Nat} {env : Setting} {entry : Path} {l : Location} {text : String} {cs : List Char}
    (hfile : env.files.find entry = .ok (l, .text text)) (htext : text.toList = cs) {s : Session}
    (h : runWithin turns env entry l cs = some s) : run env entry = .ok s := by
  obtain ⟨opened, hopened, hs⟩ := Option.bind_eq_some_iff.1 h
  obtain ⟨f, hf, hopened⟩ := Option.bind_eq_some_iff.1 hopened
  rw [toOption_eq_some, ← env.prepare_eq_prepareChars entry htext] at hf
  have hingest : ({} : Session).ingest env entry .full false = .ok opened := by
    unfold ingest
    rw [hfile]
    exact bind_eq_ok.2 ⟨text, rfl, bind_eq_ok.2 ⟨f, hf, toOption_eq_some.1 hopened⟩⟩
  exact bind_eq_ok.2 ⟨opened, hingest, resolveWithin_sound hs⟩

end Session

/-- The stages of a compilation whose entry file has these characters and whose session takes no more than some turns.
-/
def Stages.within (turns : Nat) (files : FileSystem) (options : Options) (entry : Path) (l : Location)
    (cs : List Char) : Option Stages := do
  let env := settingFor files options entry
  let session ← Session.runWithin turns env entry l cs
  let (marked, registry) := (session.units.mapM SourceFile.markAccess).run.run session.registry
  let units ← marked.toOption
  let cls ← (Compile.entryClass registry env.options).toOption
  let parts ← (Compile.parts registry env.options units cls).toOption
  let program ← (Program.assemble parts).toOption
  return { session, registry, units, parts, program }

variable {l : Location} {text : String} {cs : List Char}

theorem Stages.within_reached {turns : Nat} (hfile : files.find entry = .ok (l, .text text)) (htext : text.toList = cs)
    (h : within turns files options entry l cs = some st) : st.Reached files options entry := by
  obtain ⟨s, hs, h⟩ := Option.bind_eq_some_iff.1 h
  cases hmarked : (s.units.mapM SourceFile.markAccess).run.run s.registry with
  | mk marked r =>
    rw [hmarked] at h
    obtain ⟨units, hunits, h⟩ := Option.bind_eq_some_iff.1 h
    obtain ⟨cls, hcls, h⟩ := Option.bind_eq_some_iff.1 h
    obtain ⟨p, hp, h⟩ := Option.bind_eq_some_iff.1 h
    obtain ⟨program, hprogram, h⟩ := Option.bind_eq_some_iff.1 h
    cases h
    rw [toOption_eq_some] at hunits hcls hp hprogram
    obtain ⟨_, _, -, -, -, -, rfl, -, -⟩ := Compile.parts_eq_ok hp
    cases hunits
    exact ⟨Session.runWithin_sound hfile htext hs, hmarked, hcls, hp, hprogram⟩

/-- What can be computed of the stages holds of a compilation. -/
theorem Stages.exists_reached (turns : Nat) (files : FileSystem) (options : Options) (entry : Path)
    (hfile : files.find entry = .ok (l, .text text)) (htext : text.toList = cs) {P : Stages → Prop} [DecidablePred P]
    (h : (within turns files options entry l cs).any (P ·) = true) :
    ∃ st : Stages, st.Reached files options entry ∧ compile files options entry = .ok st.program ∧ P st := by
  cases hst : within turns files options entry l cs with
  | none => simp [hst] at h
  | some st =>
    have hreached := within_reached hfile htext hst
    exact ⟨st, hreached, compile_eq_ok_iff.2 ⟨st, hreached, rfl⟩, by simpa [hst] using h⟩

end

end ClassScript
