import ClassScript.Emit.Class
import ClassScript.Proofs.Registry.Reach
import ClassScript.Proofs.Script.Made
/-!
# Instance checks

Each level of an instance brings a function that tells whether the instance has a class, by name. It
compares the name with its own class and with the interfaces that this class lists, and hands the
question on to the level of the parent. Evaluated along a lineage, it decides the hierarchy of the
registry (`instanceCheck_decides`).
-/

namespace ClassScript.Emit

open Script Registry

/-! ## What a check evaluates to -/

/-- The text of an operand, where the parameter has the text that is asked for. -/
def operandText? (param asked : String) : Node → Option String
  | .identifier x => if x = param then some asked else none
  | .string s => some s
  | _ => none

/-- The truth of a check: whether two texts are the same, one of two checks, or what the level of the
parent answers. -/
def truth? (parent : String → Option Bool) (param asked : String) : Node → Option Bool
  | .binary .identical l r => do
    return decide ((← operandText? param asked l) = (← operandText? param asked r))
  | .binary .or l r => do
    if ← truth? parent param asked l then return true
    truth? parent param asked r
  | .call (.property (.identifier object) (.identifier method)) [arg] =>
    if object = parentBinding ∧ method = instanceCheckName then
      operandText? param asked arg >>= parent
    else none
  | _ => none

attribute [local simp] truth?

/-- What a function of one parameter answers that only returns a check. -/
def answer? (parent : String → Option Bool) (hook : Node) (asked : String) : Option Bool :=
  match hook with
  | .function [.identifier param] (.block [.ret (some check)]) => truth? parent param asked check
  | _ => none

variable (ctx : Context)

/-- What the function answers that is emitted for a class. -/
def levelAnswer? (parent : String → Option Bool) (e : ClassEntry) (asked : String) : Option Bool :=
  match instanceHook ctx e.name with
  | .ok hook => answer? parent hook asked
  | .error _ => none

/-- What the level of the last class answers. The oldest class has no parent that could agree. -/
def lineageAnswer? (entries : List ClassEntry) : String → Option Bool :=
  entries.foldl (levelAnswer? ctx) fun _ => some false

/-! ## The emitted function -/

/-- The comparison of the parameter with a name. -/
def nameCheck (name : String) : Node := .binary .identical (.identifier "name") (.string name)

/-- The question handed on to the parent. -/
def parentCheck : Node :=
  .call (.property (.identifier parentBinding) (.identifier instanceCheckName)) [.identifier "name"]

theorem mapM_nameCheck (names : List String) :
    (names.mapM fun i => do binary "===" (← ident "name") (.string i) : Result (List Node)) =
      .ok (names.map nameCheck) := by
  induction names with
  | nil => rfl
  | cons i names ih =>
    rw [List.mapM_cons, ih]
    rfl

theorem foldlM_or {checks : List Node} {n : Node} (hn : n.isStatement = false)
    (h : ∀ c ∈ checks, c.isStatement = false) :
    checks.foldlM (binary "||") n = .ok (checks.foldl (Node.binary .or) n) := by
  induction checks generalizing n with
  | nil => rfl
  | cons c checks ih =>
    rw [List.forall_mem_cons] at h
    have hstep : binary "||" n c = .ok (.binary .or n c) := binary_eq_ok.2 ⟨.or, rfl, hn, h.1, rfl⟩
    rw [List.foldlM_cons, hstep]
    exact ih rfl h.2

theorem isStatement_foldl_or {n : Node} (hn : n.isStatement = false) (checks : List Node) :
    (checks.foldl (Node.binary .or) n).isStatement = false := by
  induction checks generalizing n with
  | nil => exact hn
  | cons c checks ih => exact ih rfl

/-- What the function of a class returns: a check of its name, the question to the parent, and a check of
each interface. -/
def hookCheck (name : String) (interfaces : List String) : Node :=
  (parentCheck :: interfaces.map nameCheck).foldl (Node.binary .or) (nameCheck name)

theorem instanceHook_eq {e : ClassEntry} (he : ctx.registry.class? e.name = some e) :
    instanceHook ctx e.name = .ok (.function [.identifier "name"] (.block [.ret (some
      (hookCheck e.name (ctx.registry.interfaceGraph.reachable e.interfaces)))])) := by
  have hinterfaces := declaredInterfaces_eq he
  generalize ctx.registry.interfaceGraph.reachable e.interfaces = interfaces at hinterfaces ⊢
  have hchain : chain "||" (nameCheck e.name :: parentCheck :: interfaces.map nameCheck)
      = .ok (hookCheck e.name interfaces) :=
    foldlM_or rfl (by simp [nameCheck, parentCheck, Node.isStatement])
  have hret : ret (some (hookCheck e.name interfaces)) = .ok (.ret (some (hookCheck e.name interfaces))) :=
    ret_eq_ok.2 ⟨fun _ hv => Option.some.inj hv ▸ isStatement_foldl_or rfl _, rfl⟩
  rw [instanceHook, hinterfaces]
  simp only [mapM_nameCheck]
  show (liftM (chain "||" (nameCheck e.name :: parentCheck :: interfaces.map nameCheck)) >>= fun answer =>
    _ : Result Node) = _
  rw [hchain]
  show (liftM (ret (some (hookCheck e.name interfaces))) >>= fun stmt => _ : Result Node) = _
  rw [hret]
  rfl

/-! ## What it answers -/

variable {parent : String → Option Bool} {asked : String} {a : Bool}

theorem truth?_nameCheck (name : String) :
    truth? parent "name" asked (nameCheck name) = some (decide (asked = name)) := by
  simp [nameCheck, operandText?]

theorem truth?_or {l r : Node} {b : Bool} (hl : truth? parent "name" asked l = some a)
    (hr : truth? parent "name" asked r = some b) :
    truth? parent "name" asked (.binary .or l r) = some (a || b) := by
  simp only [truth?, hl, hr]
  cases a <;> rfl

/-- A chain of comparisons holds if the asked name is among those compared with. -/
theorem truth?_nameChecks {n : Node} (hn : truth? parent "name" asked n = some a) (names : List String) :
    truth? parent "name" asked ((names.map nameCheck).foldl (Node.binary .or) n)
      = some (a || decide (asked ∈ names)) := by
  induction names generalizing n a with
  | nil => simpa using hn
  | cons i names ih =>
    rw [List.map_cons, List.foldl_cons, ih (truth?_or hn (truth?_nameCheck i))]
    simp [Bool.or_assoc]

/-- One level: the class itself, what the parent answers, and the interfaces of the class. -/
theorem levelAnswer?_eq {e : ClassEntry} (he : ctx.registry.class? e.name = some e)
    (hparent : parent asked = some a) :
    levelAnswer? ctx parent e asked = some (decide (asked = e.name ∨ a = true ∨
      asked ∈ ctx.registry.interfaceGraph.reachable e.interfaces)) := by
  have hask : truth? parent "name" asked parentCheck = some a := by
    simp [parentCheck, operandText?, hparent]
  have hown := truth?_or (truth?_nameCheck e.name) hask
  rw [levelAnswer?, instanceHook_eq ctx he]
  show truth? parent "name" asked (hookCheck _ _) = _
  rw [hookCheck, List.foldl_cons, truth?_nameChecks hown]
  cases a <;> simp

/-- All levels of a lineage together. -/
theorem lineageAnswer?_eq {entries : List ClassEntry} (h : Lineage ctx.registry entries) (asked : String) :
    lineageAnswer? ctx entries asked = some (decide (∃ a ∈ entries, asked = a.name ∨
      asked ∈ ctx.registry.interfaceGraph.reachable a.interfaces)) := by
  induction entries using List.reverseRecOn with
  | nil => simp [lineageAnswer?]
  | append_singleton older e ih =>
    rw [lineageAnswer?, List.foldl_append, ← lineageAnswer?]
    refine (levelAnswer?_eq ctx (h.known e (by simp)) (ih h.of_append)).trans ?_
    simp only [List.mem_append, List.mem_singleton, or_and_right, exists_or, exists_eq_left, decide_eq_true_eq]
    exact congrArg some (decide_eq_decide.2 or_left_comm)

/-- Asked for a name, the function of a class always answers. It agrees exactly if the name is that of the
class, of one of its ancestors, or of an interface that the class has. -/
theorem instanceCheck_decides {older : List ClassEntry} {e : ClassEntry}
    (h : Lineage ctx.registry (older ++ [e])) (asked : String) :
    ∃ answer, lineageAnswer? ctx (older ++ [e]) asked = some answer ∧
      (answer = true ↔ asked = e.name ∨ (∃ a ∈ older, asked = a.name) ∨
        ctx.registry.implements e.name asked = true) := by
  refine ⟨_, lineageAnswer?_eq ctx h asked, ?_⟩
  rw [decide_eq_true_eq, h.implements_iff]
  constructor
  · rintro ⟨a, ha, rfl | hn⟩
    · rcases List.mem_append.1 ha with ha | ha
      · exact .inr (.inl ⟨a, ha, rfl⟩)
      · exact .inl (by rw [List.mem_singleton.1 ha])
    · exact .inr (.inr ⟨a, ha, hn⟩)
  · rintro (rfl | ⟨a, ha, rfl⟩ | ⟨a, ha, hn⟩)
    · exact ⟨e, by simp, .inl rfl⟩
    · exact ⟨a, List.mem_append_left _ ha, .inl rfl⟩
    · exact ⟨a, ha, .inr hn⟩

/-- A class below another one. The interfaces that they list extend each other, and one that nobody
declares. -/
def tangledRegistry : Registry where
  classes :=
    [{ name := "Shape", parent := none, interfaces := ["Drawn"], isInternal := false },
      { name := "Square", parent := some "Shape", interfaces := ["Sized"], isInternal := false }]
  interfaces :=
    [{ name := "Drawn", parents := ["Named", "Sized"], isInternal := false },
      { name := "Sized", parents := ["Drawn"], isInternal := false }]

theorem tangledRegistry_answers :
    ∃ shape square, Lineage tangledRegistry ([shape] ++ [square]) ∧ square.name = "Square" ∧
      lineageAnswer? ⟨tangledRegistry, none⟩ ([shape] ++ [square]) "Shape" = some true ∧
      lineageAnswer? ⟨tangledRegistry, none⟩ ([shape] ++ [square]) "Named" = some true ∧
      lineageAnswer? ⟨tangledRegistry, none⟩ ([shape] ++ [square]) "Round" = some false := by
  have h : Lineage tangledRegistry
      ([{ name := "Shape", parent := none, interfaces := ["Drawn"], isInternal := false }] ++
        [{ name := "Square", parent := some "Shape", interfaces := ["Sized"], isInternal := false }]) :=
    ⟨by decide, by simp, by simp⟩
  have hnamed : tangledRegistry.implements "Square" "Named" = true := by decide +kernel
  have hround : tangledRegistry.implements "Square" "Round" = false := by decide +kernel
  have hanswer := instanceCheck_decides ⟨tangledRegistry, none⟩ h
  refine ⟨_, _, h, rfl, ?_, ?_, ?_⟩
  · obtain ⟨answer, hsome, hiff⟩ := hanswer "Shape"
    rw [hsome, hiff.2 (by simp)]
  · obtain ⟨answer, hsome, hiff⟩ := hanswer "Named"
    rw [hsome, hiff.2 (.inr (.inr hnamed))]
  · obtain ⟨answer, hsome, hiff⟩ := hanswer "Round"
    have hfalse : answer = false := Bool.eq_false_iff.2 fun htrue => by simpa [hround] using hiff.1 htrue
    rw [hsome, hfalse]

end ClassScript.Emit
