import ClassScript.Proofs.Program.Compiled
import ClassScript.Proofs.Session.Worklist
/-!
# Classes that are referred to

Classes, interfaces and functions are located by their names alone, and the library answers first. So a
name that is spelled like a builtin function is taken for it where a class is meant, too: no file is
looked for (`Locator.standard_eq_ok_none_iff`). A session without failure has the declarations of all
other classes that its files refer to outside of the host's namespace (`Session.class_references`).
-/

namespace ClassScript

open Emit

/-! ## Names that need no file -/

namespace Locator

/-- Spelled like a builtin function, be it in other letters, or just like a builtin constant or a
function of the prelude. -/
def SpelledAsBuiltin (name : String) : Prop :=
  lower name ∈ Builtin.functions.map (·.1) ∨ name ∈ Builtin.constants.map (·.1) ∨
    name ∈ Builtin.preludeFunctions

instance (name : String) : Decidable (SpelledAsBuiltin name) :=
  inferInstanceAs (Decidable (_ ∨ _ ∨ _))

theorem lookup_isSome_iff_mem {α : Type} {name : String} {table : List (String × α)} :
    (table.lookup name).isSome = true ↔ name ∈ table.map (·.1) := by
  rw [List.lookup_isSome_iff]
  simp

theorem spelledAsBuiltin_iff {name : String} :
    SpelledAsBuiltin name ↔ (Builtin.inPrelude name || Builtin.isBuiltin name) = true := by
  rw [Builtin.inPrelude, Builtin.isBuiltin, Builtin.function?, Builtin.constant?]
  simp only [SpelledAsBuiltin, Bool.or_eq_true, lookup_isSome_iff_mem, List.contains_iff_mem]
  rw [← or_assoc, or_comm]

/-- Builtins are in no namespace. -/
theorem SpelledAsBuiltin.not_mem_separator {name : String} (h : SpelledAsBuiltin name) : '\\' ∉ name.toList := by
  have hfunctions : ∀ f ∈ Builtin.functions.map (·.1), '\\' ∉ f.toList := by decide +kernel
  have hothers : ∀ f ∈ Builtin.constants.map (·.1) ++ Builtin.preludeFunctions, '\\' ∉ f.toList := by decide +kernel
  rcases h with h | h
  · intro hsep
    refine hfunctions _ h ?_
    rw [lower, String.toList_ofList]
    exact List.mem_map_of_mem hsep
  · exact hothers name (List.mem_append.2 h)

/-- What the library declares is neither spelled like a builtin nor of the host. -/
theorem library_apart {root p : Path} {name : String} (h : Library.file? root name = some p) :
    ¬SpelledAsBuiltin name ∧ isNative name = false := by
  have hnames : ∀ n ∈ Library.files.map (·.1), ¬SpelledAsBuiltin n ∧ isNative n = false := by
    decide +kernel
  refine hnames name (lookup_isSome_iff_mem.1 ?_)
  obtain ⟨pieces, hpieces, -⟩ := Option.map_eq_some_iff.1 h
  rw [hpieces]
  rfl

theorem sources_ne_ok_none {files : FileSystem} {roots : List (String × Path)} {extension name : String} :
    (sources files roots extension nowhere).file? name ≠ .ok none := by
  intro h
  unfold sources at h
  simp only at h
  split at h
  · cases h
  · split at h <;> cases h

/-- The names that need no file are those spelled like a builtin and those of the host. -/
theorem standard_eq_ok_none_iff {files : FileSystem} {options : Options} {name : String} :
    (standard files options).file? name = .ok none ↔ SpelledAsBuiltin name ∨ isNative name = true := by
  rw [standard, library]
  simp only
  split
  · next p hp =>
    obtain ⟨hbuiltin, hnative⟩ := library_apart hp
    simp only [hbuiltin, hnative, Bool.false_eq_true, or_self, iff_false]
    intro h
    split at h <;> cases h
  · split
    · next hbuiltin => exact iff_of_true rfl (.inl (spelledAsBuiltin_iff.2 hbuiltin))
    · next hbuiltin =>
      rw [← spelledAsBuiltin_iff] at hbuiltin
      rw [native]
      simp only
      split
      · next hnative => exact iff_of_true rfl (.inr hnative)
      · next hnative => exact iff_of_false sources_ne_ok_none (not_or.2 ⟨hbuiltin, hnative⟩)

end Locator

/-! ## References of a session -/

/-- What a session works with if names are located as usual. -/
def Setting.standard (files : FileSystem) (options : Options) : Setting where
  files
  options
  locator := .standard files options

/-- The classes and interfaces that a file declares. -/
def SourceFile.declaredNames (f : SourceFile) : List String :=
  f.classes.map Class.qualifiedName ++ f.interfaces.map Interface.qualifiedName

namespace Session

theorem Sound.contains_iff {env : Setting} {s : Session} {pending : List String} (h : Sound env s pending)
    {name : String} : s.registry.contains name = true ↔ ∃ f ∈ s.units, name ∈ f.declaredNames := by
  rw [Registry.contains_iff, Registry.names, h.classes, h.interfaces]
  simp only [SourceFile.declaredNames, List.mem_append, List.mem_flatMap]
  grind

/-- The classes that the files of a session refer to outside of the host's namespace are declared,
unless their names are spelled like builtins. No file is looked for under such a name, whatever files
there are, so the class is there only if a file that was taken in for another name declares it. -/
theorem class_references {files : FileSystem} {options : Options} {entry : Path} {s : Session}
    (h : run (.standard files options) entry = .ok s) :
    (∀ f ∈ s.units, ∀ p ∈ f.parts, ∀ n ∈ p.classNames, n.parts ≠ [] → Locator.isNative n.joined = false →
      s.registry.contains n.joined = true ∨ Locator.SpelledAsBuiltin n.joined) ∧
    (∀ name, s.registry.contains name = true ↔ ∃ f ∈ s.units, name ∈ f.declaredNames) ∧
    ∀ name, Locator.SpelledAsBuiltin name → '\\' ∉ name.toList ∧
      ∀ files' options', (Locator.standard files' options').file? name = .ok none := by
  have hsound := run_sound h
  refine ⟨fun f hf p hp n hn hparts hnative => ?_, fun name => hsound.contains_iff, fun name hname => ?_⟩
  · refine (hsound.complete.references f hf p hp n hn hparts).imp_right fun hfree => ?_
    exact (Locator.standard_eq_ok_none_iff.1 hfree).resolve_right (Bool.eq_false_iff.1 hnative)
  · exact ⟨hname.not_mem_separator, fun _ _ => Locator.standard_eq_ok_none_iff.2 (.inl hname)⟩

theorem exists_run (turns : Nat) (env : Setting) (entry : Path) {l : Location} {text : String} {cs : List Char}
    (hfile : env.files.find entry = .ok (l, .text text)) (htext : text.toList = cs) {P : Session → Prop}
    [DecidablePred P] (h : (runWithin turns env entry l cs).any (P ·) = true) : ∃ s, run env entry = .ok s ∧ P s := by
  cases hs : runWithin turns env entry l cs with
  | none => simp [hs] at h
  | some s => exact ⟨s, runWithin_sound hfile htext hs, by simpa [hs] using h⟩

/-- A script that makes an instance of a class, with the file of that class beside it. -/
def instanceFiles (cls : String) : FileSystem where
  entries := [
    (["Main.php"], .text ("class Main \x7b function run() \x7b return new " ++ cls ++ "(); \x7d \x7d")),
    ([cls ++ ".php"], .text ("class " ++ cls ++ " \x7b \x7d"))]

/-- The directory of the files is the only source root. -/
def besideMain : Options where
  sourceRoots := .ofList [("", ⟨"/"⟩)]

/-- The files of a session refer to a class. -/
def RefersTo (s : Session) (name : String) : Prop :=
  ∃ f ∈ s.units, ∃ p ∈ f.parts, ∃ n ∈ p.classNames, n.parts ≠ [] ∧ n.joined = name

instance (s : Session) (name : String) : Decidable (s.RefersTo name) :=
  inferInstanceAs (Decidable (∃ f ∈ s.units, ∃ p ∈ f.parts, ∃ n ∈ p.classNames, n.parts ≠ [] ∧ n.joined = name))

theorem counter_declared : ∃ s, run (.standard (instanceFiles "Counter") besideMain) ⟨"/Main.php"⟩ = .ok s ∧
    s.RefersTo "Counter" ∧ Locator.isNative "Counter" = false ∧ s.registry.contains "Counter" = true := by
  obtain ⟨s, hrun, hrefers⟩ := exists_run 2 (.standard (instanceFiles "Counter") besideMain) ⟨"/Main.php"⟩ rfl
    (toList_append_eq (toList_append_eq String.toList_ofList String.toList_ofList) String.toList_ofList)
    (P := fun s => s.RefersTo "Counter") (by decide +kernel)
  have hnative : Locator.isNative "Counter" = false := by decide
  have hbuiltin : ¬Locator.SpelledAsBuiltin "Counter" := by decide
  obtain ⟨f, hf, p, hp, n, hn, hparts, hname⟩ := hrefers
  have hdeclared := (class_references hrun).1 f hf p hp n hn hparts
  rw [hname] at hdeclared
  exact ⟨s, hrun, ⟨f, hf, p, hp, n, hn, hparts, hname⟩, hnative, (hdeclared hnative).resolve_right hbuiltin⟩

/-- The file of a class that is spelled like a function is left aside. -/
theorem count_taken_for_builtin :
    (instanceFiles "Count").isFile ⟨"/Count.php"⟩ = true ∧
    ∃ s, run (.standard (instanceFiles "Count") besideMain) ⟨"/Main.php"⟩ = .ok s ∧
      s.RefersTo "Count" ∧ Locator.isNative "Count" = false ∧ s.registry.contains "Count" = false := by
  refine ⟨by decide +kernel, exists_run 1 _ _ rfl
    (toList_append_eq (toList_append_eq String.toList_ofList String.toList_ofList) String.toList_ofList)
    (P := fun s => s.RefersTo "Count" ∧ Locator.isNative "Count" = false ∧ s.registry.contains "Count" = false) ?_⟩
  decide +kernel

end Session

end ClassScript
