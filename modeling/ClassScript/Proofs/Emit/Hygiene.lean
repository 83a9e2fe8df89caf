import ClassScript.Program
import ClassScript.Proofs.Emit.InstanceCheck
import ClassScript.Proofs.Emit.Printable
import ClassScript.Proofs.Script.Mentions
import ClassScript.Proofs.Text.Word
/-!
# Variables of the source in the emitted program

A variable of the source keeps its name, unless the name is taken; then it gets a `$`, which is in no name of
the source. So variables stay apart from one another and from the variables that emission has of its own
(`mangle_hygiene`).

Two names are not taken although emitted code uses them: `print_r` and `var_dump`, functions of the prelude
that are called by their own names. A variable of such a name hides the function (`print_r_hidden`).
-/

namespace ClassScript

open Emit Script

namespace Emit

/-! ## Names of variables -/

/-- Words that the emitted language reserves, some of them only in strict code or in modules. -/
def reservedWords : List String :=
  ["await", "break", "case", "catch", "class", "const", "continue", "debugger", "default", "delete", "do",
    "else", "enum", "export", "extends", "false", "finally", "for", "function", "if", "implements", "import",
    "in", "instanceof", "interface", "let", "new", "null", "package", "private", "protected", "public",
    "return", "static", "super", "switch", "this", "throw", "true", "try", "typeof", "var", "void", "while",
    "with", "yield"]

variable {v w s : String}

theorem mangle_of_taken (h : isTaken v = true) : mangle v = v ++ "$" := if_pos h

theorem mangle_of_free (h : isTaken v = false) : mangle v = v := if_neg (Bool.eq_false_iff.1 h)

/-- No word ends like a name that was taken. -/
theorem append_dollar_ne (hs : isWord s = true) : v ++ "$" ≠ s := by
  rintro rfl
  exact not_mem_of_isWord hs (c := '$') (by decide) (by simp)

/-- No variable is emitted by a word that is taken. -/
theorem mangle_ne (hs : isWord s = true) (htaken : isTaken s = true) : mangle v ≠ s := by
  cases hv : isTaken v with
  | true =>
    rw [mangle_of_taken hv]
    exact append_dollar_ne hs
  | false =>
    rw [mangle_of_free hv]
    rintro rfl
    simp [hv] at htaken

theorem mangle_injective (hv : isWord v = true) (hw : isWord w = true) (h : mangle v = mangle w) : v = w := by
  cases htv : isTaken v with
  | true =>
    cases htw : isTaken w with
    | true =>
      rw [mangle_of_taken htv, mangle_of_taken htw] at h
      exact (String.append_left_inj "$").1 h
    | false =>
      rw [mangle_of_taken htv, mangle_of_free htw] at h
      exact absurd h (append_dollar_ne hw)
  | false =>
    cases htw : isTaken w with
    | true =>
      rw [mangle_of_free htv, mangle_of_taken htw] at h
      exact absurd h.symm (append_dollar_ne hv)
    | false => rwa [mangle_of_free htv, mangle_of_free htw] at h

theorem isIdentifierName_mangle (hv : isWord v = true) : isIdentifierName (mangle v) = true := by
  unfold isWord at hv
  split at hv
  · cases hv
  · next c cs hcs =>
    obtain ⟨hc, hrest⟩ := Bool.and_eq_true_iff.1 hv
    have hrest : cs.all (fun d => isWordChar d || d == '$') = true :=
      List.all_eq_true.2 fun d hd => Bool.or_eq_true_iff.2 (.inl (List.all_eq_true.1 hrest d hd))
    cases htaken : isTaken v with
    | true =>
      rw [mangle_of_taken htaken, isIdentifierName, String.toList_append, hcs]
      simp [hc, hrest]
    | false =>
      rw [mangle_of_free htaken, isIdentifierName, hcs]
      simp [hc, hrest]

theorem reserved_taken : ∀ s ∈ reservedWords, isWord s = true ∧ isTaken s = true := by decide +kernel

theorem mangle_not_mem_reservedWords (v : String) : mangle v ∉ reservedWords := fun h =>
  mangle_ne (reserved_taken _ h).1 (reserved_taken _ h).2 rfl

/-- All names that emission has of its own are taken, but for functions of the prelude. -/
theorem generated_taken : ∀ s ∈ generatedNames,
    isWord s = true ∧ (isTaken s = true ∨ s ∈ Builtin.preludeFunctions) := by decide +kernel

theorem prelude_generated : ∀ s ∈ Builtin.preludeFunctions, mangle s ∈ generatedNames := by decide +kernel

theorem mangle_mem_generatedNames : mangle v ∈ generatedNames ↔ v ∈ Builtin.preludeFunctions := by
  refine ⟨fun h => ?_, prelude_generated v⟩
  obtain ⟨hword, htaken | hprelude⟩ := generated_taken _ h
  · exact absurd rfl (mangle_ne hword htaken)
  · cases hv : isTaken v with
    | true => exact absurd (mangle_of_taken hv).symm (append_dollar_ne hword)
    | false => rwa [mangle_of_free hv] at hprelude

end Emit

/-! ## Around the declarations -/

namespace Program

variable {admits : String → Prop} {P : Node → Prop} (hP : Hereditary admits P)
  (hown : ∀ s ∈ generatedNames, admits s)

include hP

-- The fields use the hypothesis only through the objects.
set_option linter.unusedSectionVars false in
mutual

theorem makes_namespaceObject : (t : NamespaceTree) → Makes (namespaceObject t) P
  | .node children => (makes_namespaceFields children).bind fun _ hfs _ => hP.object hfs

theorem makes_namespaceFields : (children : List (String × NamespaceTree)) →
    Makes (namespaceFields children) fun fs => ∀ f ∈ fs, P f.value
  | [] => .pure nofun
  | (_, child) :: rest => (makes_namespaceObject child).bind fun _ hvalue =>
    (makes_namespaceFields rest).bind fun _ hrest => .pure (List.forall_mem_cons.2 ⟨hvalue, hrest⟩)

end

include hown

theorem makes_rootDeclaration (t : NamespaceTree) : Makes (rootDeclaration t) P :=
  (makes_namespaceObject hP t).bind fun _ h => makes_ownDeclare hP hown (by decide) h

theorem makes_boxDeclaration : Makes boxDeclaration P := by
  have hboxes : ∀ x ∈ boxes, x.2 ∈ generatedNames := by decide
  refine .bind (.mapM (R := fun f => P f.value) fun x hx => ?_) fun _ hfs => ?_
  · exact (makes_own hP hown (hboxes x hx)).bind fun _ hvalue => .pure hvalue
  · exact .bind (fun _ => hP.object hfs) fun _ ho => makes_ownDeclare hP hown (by decide) ho

theorem makes_apiInstance (api : String) : Makes (apiInstance api) P := by
  unfold apiInstance
  split
  · exact .bind (.lift (makes_classPath hP hown _)) fun _ hp => .lift fun _ => hP.methodCall hp nofun
  · exact .error _

theorem makes_entryCall (parts : Parts) : Makes (entryCall parts) P := by
  refine .bind (.mapM fun api _ => makes_apiInstance hP hown api) fun _ hargs => ?_
  refine .bind (.lift (makes_classPath hP hown _)) fun _ hp =>
    .bind (.lift fun _ => hP.methodCall hp hargs) fun _ hentry => ?_
  exact .bind (.lift fun _ => hP.methodCall hentry nofun) fun _ hcall => .lift fun _ => hP.statement hcall

end Program

/-! ## Declarations -/

/-- The name is given by the source: a part of this one hands it on, or it is that of a variable. -/
def Part.GivesName (p : Part) (s : String) : Prop :=
  ∃ q ∈ p.all, s ∈ q.verbatimNames ∨ ∃ v ∈ q.sourceVariables, s = mangle v

theorem Part.namesAdmitted_givesName (p : Part) (admits : String → Prop) :
    p.NamesAdmitted fun s => admits s ∨ p.GivesName s := by
  intro q hq s hs
  rcases List.mem_append.1 hs with hs | hs
  · obtain ⟨v, hv, rfl⟩ := List.mem_map.1 hs
    exact .inr ⟨q, hq, .inr ⟨v, hv, rfl⟩⟩
  · exact .inr ⟨q, hq, .inl hs⟩

theorem Class.emit_covered (registry : Registry) (c : Class) : Makes (c.emit registry)
    (Node.Covered (fun m => instanceHook ⟨registry, some c.qualifiedName⟩ c.qualifiedName = .ok m)
      fun s => s ∈ generatedNames ∨ (Part.cls c).GivesName s) :=
  emit_hereditary (covered_hereditary _ _) (fun _ => .inl) registry (Part.namesAdmitted_givesName _ _)
    fun _ hhook => .of_apart hhook

theorem Interface.emit_covered (registry : Registry) (i : Interface) : Makes (i.emit registry)
    (EachNode (Node.Covered (fun _ => False) fun s => s ∈ generatedNames ∨ (Part.iface i).GivesName s)) :=
  emit_hereditary (covered_hereditary _ _) (fun _ => .inl) registry (Part.namesAdmitted_givesName _ _)

/-- Different variables of the source get different names, which are identifiers and no reserved words. None
of the names is one that emission has of its own, unless the variable is called like a function of the prelude.

The names that emission has of its own are all that a program has beside those that its source gives, apart
from the parameter of the function that tells the class of an instance; that function holds no code of the
source. -/
theorem mangle_hygiene {v w : String} (hv : isWord v = true) (hw : isWord w = true) :
    (mangle v = mangle w ↔ v = w) ∧ isIdentifierName (mangle v) = true ∧ mangle v ∉ reservedWords ∧
    (mangle v ∈ generatedNames ↔ v ∈ Builtin.preludeFunctions) ∧
    (∀ registry (c : Class) n, c.emit registry = .ok n → ∀ s,
      n.Mentions (fun m => instanceHook ⟨registry, some c.qualifiedName⟩ c.qualifiedName = .ok m) s →
        s ∈ generatedNames ∨ (Part.cls c).GivesName s) ∧
    (∀ ctx name hook, instanceHook ctx name = .ok hook → ∀ s, hook.Mentions (fun _ => False) s →
      s = "name" ∨ s = parentBinding) ∧
    (∀ registry (i : Interface) ns, i.emit registry = .ok ns → ∀ n ∈ ns, ∀ s,
      n.Mentions (fun _ => False) s → s ∈ generatedNames ∨ (Part.iface i).GivesName s) ∧
    ∀ n, (∃ t, Program.rootDeclaration t = .ok n) ∨ Program.boxDeclaration = .ok n ∨
      (∃ parts, Program.entryCall parts = .ok n) → ∀ s, n.Mentions (fun _ => False) s → s ∈ generatedNames := by
  refine ⟨⟨mangle_injective hv hw, congrArg mangle⟩, isIdentifierName_mangle hv, mangle_not_mem_reservedWords v,
    mangle_mem_generatedNames, ?_, ?_, ?_, ?_⟩
  · exact fun registry c n hn => c.emit_covered registry n hn
  · exact fun ctx name => makes_instanceHook (covered_hereditary _ _) ctx (.inl rfl) (.inr rfl) name
  · exact fun registry i ns hns => i.emit_covered registry ns hns
  · have hP := covered_hereditary (fun _ => False) (· ∈ generatedNames)
    rintro n (⟨t, hn⟩ | hn | ⟨parts, hn⟩)
    · exact Program.makes_rootDeclaration hP (fun _ => id) t n hn
    · exact Program.makes_boxDeclaration hP (fun _ => id) n hn
    · exact Program.makes_entryCall hP (fun _ => id) parts n hn

/-- `public function mark($root) { $this->log($root); }`, resolved. -/
def markMethod : Method where
  name := "mark"
  params := [⟨"root", none, none, false, false, false, .unknown⟩]
  body := some [.expression (.methodCall .unknown (.variable .unknown "this" false) (.ident "log")
    [⟨.variable .unknown "root" false, false⟩] (some .priv))]
  byRefReturn := false
  modifiers := { visibility := some .pub }
  resolved := some .pub
  pos := .unknown

/-- `class Tracer { public function mark($root) { $this->log($root); } }` -/
def tracerClass : Class where
  name := "Tracer"
  parent := none
  interfaces := []
  members := [.method markMethod]
  isAbstract := false
  isFinal := false
  pos := .unknown
  qualified := none
  scriptApis := none

def tracerEntry : ClassEntry where
  name := "Tracer"
  parent := none
  interfaces := []
  isInternal := false

def tracerRegistry : Registry where
  classes := [tracerEntry]

theorem tracer_interfaces : tracerRegistry.declaredInterfaces "Tracer" = .ok [] := by
  simp [tracerRegistry, tracerEntry, Registry.declaredInterfaces, Registry.requireClass, Registry.class?,
    Registry.collect]

theorem tracer_emit : ∃ n, tracerClass.emit tracerRegistry = .ok n ∧ ∀ apart : Node → Prop,
    (∀ m, apart m → ∃ body, m = .function [.identifier "name"] body) → n.Mentions apart "root$" := by
  rw [Class.emit, emitModule, emitInstance]
  simp only [instanceHook, constantsTable, show tracerClass.qualifiedName = "Tracer" from rfl,
    tracer_interfaces]
  refine ⟨_, rfl, fun apart hapart => ?_⟩
  have free {m : Node} (h : ∀ body, m ≠ .function [.identifier "name"] body) : ¬apart m := fun hm =>
    (hapart m hm).elim h
  -- the function of the parent, in the call that is assigned
  refine .inside (free (by simp)) (.head _) (.inside (free (by simp)) (.tail _ (.head _)) ?_)
  refine .inside (free (by simp)) (.head _) (.inside (free (by simp)) (.tail _ (.head _)) ?_)
  -- the function that makes an instance, which the parent is called with
  refine .inside (free (by simp)) (.tail _ (.head _)) (.inside (free (by simp)) (.head _) ?_)
  refine .inside (free (by simp)) (.tail _ (.head _)) (.inside (free (by simp)) (.head _) ?_)
  refine .inside (free (by simp)) (.head _) (.inside (free (by simp)) (.tail _ (.head _)) ?_)
  -- the method, behind the objects that an instance starts with
  refine .inside (free (by simp)) (.tail _ (.head _)) ?_
  refine .inside (free (by simp)) (.tail _ (.tail _ (.tail _ (.tail _ (.tail _ (.head _)))))) ?_
  refine .inside (free (by simp)) (.head _) (.inside (free (by simp)) (.tail _ (.head _)) ?_)
  have hroot : mangle "root" = "root$" := by decide
  exact .inside (free (by simp [hroot])) (.head _) (.here (free (by simp)) (.head _))

/-- The parameter of a method is kept apart from the root of all namespaces. -/
theorem tracer_hygiene : isWord "root" = true ∧ isWord "Root" = true ∧ mangle "root" ≠ mangle "Root" ∧
    isIdentifierName (mangle "root") = true ∧ mangle "root" ∉ generatedNames ∧
    ∃ n, tracerClass.emit tracerRegistry = .ok n ∧
      n.Mentions (fun m => instanceHook ⟨tracerRegistry, some "Tracer"⟩ "Tracer" = .ok m) "root$" ∧
      ("root$" ∈ generatedNames ∨ (Part.cls tracerClass).GivesName "root$") := by
  have hroot : isWord "root" = true := by decide
  have hcapital : isWord "Root" = true := by decide
  obtain ⟨hinjective, hidentifier, -, hgenerated, hclass, -⟩ := mangle_hygiene hroot hcapital
  obtain ⟨n, hn, hmentions⟩ := tracer_emit
  have hhook := instanceHook_eq ⟨tracerRegistry, some "Tracer"⟩ (e := tracerEntry) rfl
  have hparameter := hmentions (fun m => instanceHook ⟨tracerRegistry, some "Tracer"⟩ "Tracer" = .ok m)
    fun m hm => ⟨_, Except.ok.inj (hm.symm.trans hhook)⟩
  refine ⟨hroot, hcapital, fun h => ?_, hidentifier, fun h => ?_, n, hn, hparameter,
    hclass tracerRegistry tracerClass n hn _ hparameter⟩
  · exact absurd (hinjective.1 h) (by decide)
  · exact absurd (hgenerated.1 h) (by decide)

/-- `public function dump($print_r) { print_r(1); }` -/
def dumpMethod : Method where
  name := "dump"
  params := [⟨"print_r", none, none, false, false, false, .unknown⟩]
  body := some [.expression (.call .unknown (.named ⟨["print_r"], .fullyQualified⟩) [⟨.int .unknown 1, false⟩])]
  byRefReturn := false
  modifiers := { visibility := some .pub }
  resolved := some .pub
  pos := .unknown

/-- The call of the function is emitted as a call of the parameter. -/
theorem print_r_hidden : isWord "print_r" = true ∧ mangle "print_r" = "print_r" ∧ "print_r" ∈ generatedNames ∧
    (emitFunction ⟨{}, none⟩ dumpMethod (dumpMethod.body.getD [])).run' none = .ok
      (.function [.identifier "print_r"]
        (.block [.statement (.call (.identifier "print_r") [.int 1])])) :=
  ⟨by decide, by decide, by decide, rfl⟩

end ClassScript
