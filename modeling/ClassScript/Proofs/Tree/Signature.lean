import ClassScript.Proofs.Tree.Through
import Mathlib.Data.Sum.Order
/-!
# Signatures

What a class or interface is declared as: its name, what it extends and implements, its members by name
and their parameters. A pass keeps all of this if it does so at statements, parameters, methods, classes
and interfaces, whatever it does to expressions (`Signs.declarations`).
-/

namespace ClassScript

/-! ## Kept signatures -/

/-- A parameter keeps its name. It keeps its type too, or has none any more. -/
structure Param.Keeps (p p' : Param) : Prop where
  name : p'.name = p.name
  type : p'.type = p.type ∨ p'.type = none

structure Method.Keeps (m m' : Method) : Prop where
  name : m'.name = m.name
  params : List.Forall₂ Param.Keeps m.params m'.params

inductive Member.Keeps : Member → Member → Prop
  | property {d d' : Property} : d'.name = d.name → Keeps (.property d) (.property d')
  | const {d d' : Constant} : d'.name = d.name → Keeps (.const d) (.const d')
  | method {m m' : Method} : m.Keeps m' → Keeps (.method m) (.method m')
  | traitUse {ns : List Name} : Keeps (.traitUse ns) (.traitUse ns)

structure Class.Keeps (c c' : Class) : Prop where
  name : c'.qualifiedName = c.qualifiedName
  parent : c'.parent = c.parent
  interfaces : c'.interfaces = c.interfaces
  members : List.Forall₂ Member.Keeps c.members c'.members

structure Interface.Keeps (i i' : Interface) : Prop where
  name : i'.qualifiedName = i.qualifiedName
  parents : i'.parents = i.parents
  members : List.Forall₂ Member.Keeps i.members i'.members

/-- What holds from one to the next and from that to the one behind it. -/
theorem forall₂_trans {α β γ : Type} {R : α → β → Prop} {S : β → γ → Prop} {T : α → γ → Prop}
    (hT : ∀ a b c, R a b → S b c → T a c) {as : List α} {bs : List β} {cs : List γ}
    (h : List.Forall₂ R as bs) (h' : List.Forall₂ S bs cs) : List.Forall₂ T as cs := by
  induction h generalizing cs with
  | nil =>
    cases h'
    exact .nil
  | cons hab _ ih =>
    cases h' with
    | cons hbc h' => exact .cons (hT _ _ _ hab hbc) (ih h')

/-- What is on the right of a relation between lists has something on its left. -/
theorem exists_of_forall₂ {α β : Type} {R : α → β → Prop} {as : List α} {bs : List β}
    (h : List.Forall₂ R as bs) {b : β} (hb : b ∈ bs) : ∃ a ∈ as, R a b := by
  induction h with
  | nil => cases hb
  | cons hr _ ih =>
    cases hb with
    | head => exact ⟨_, .head _, hr⟩
    | tail _ hb =>
      obtain ⟨a, ha, hr⟩ := ih hb
      exact ⟨a, .tail _ ha, hr⟩

theorem map_eq_of_forall₂ {α β γ : Type} {R : α → β → Prop} {f : α → γ} {g : β → γ}
    (hR : ∀ a b, R a b → f a = g b) {as : List α} {bs : List β} (h : List.Forall₂ R as bs) :
    as.map f = bs.map g := by
  induction h with
  | nil => rfl
  | cons hr _ ih => rw [List.map_cons, List.map_cons, hR _ _ hr, ih]

/-- What the entries of a list give, one by one. -/
theorem forall₂_of_mapM {ε α β : Type} {f : α → Except ε β} {as : List α} {bs : List β}
    (h : as.mapM f = .ok bs) : List.Forall₂ (fun a b => f a = .ok b) as bs := by
  induction as generalizing bs with
  | nil =>
    cases h
    exact .nil
  | cons a as ih =>
    rw [List.mapM_cons] at h
    obtain ⟨b, hb, h⟩ := bind_eq_ok.1 h
    obtain ⟨bs', hbs, h⟩ := bind_eq_ok.1 h
    cases h
    exact .cons hb (ih hbs)

theorem Param.Keeps.refl (p : Param) : p.Keeps p := ⟨rfl, .inl rfl⟩

theorem Param.Keeps.trans {p p' p'' : Param} (h : p.Keeps p') (h' : p'.Keeps p'') : p.Keeps p'' := by
  refine ⟨h'.name.trans h.name, ?_⟩
  rcases h'.type with htype | htype
  · rw [htype]
    exact h.type
  · exact .inr htype

theorem Method.Keeps.refl (m : Method) : m.Keeps m := ⟨rfl, List.forall₂_same.2 fun p _ => .refl p⟩

theorem Method.Keeps.trans {m m' m'' : Method} (h : m.Keeps m') (h' : m'.Keeps m'') : m.Keeps m'' :=
  ⟨h'.name.trans h.name, forall₂_trans (fun _ _ _ => .trans) h.params h'.params⟩

theorem Member.Keeps.refl (m : Member) : m.Keeps m := by
  cases m with
  | property => exact .property rfl
  | const => exact .const rfl
  | method m => exact .method (.refl m)
  | traitUse => exact .traitUse

theorem Member.Keeps.trans {m m' m'' : Member} (h : m.Keeps m') (h' : m'.Keeps m'') : m.Keeps m'' := by
  cases h with
  | property h =>
    cases h' with
    | property h' => exact .property (h'.trans h)
  | const h =>
    cases h' with
    | const h' => exact .const (h'.trans h)
  | method h =>
    cases h' with
    | method h' => exact .method (h.trans h')
  | traitUse =>
    cases h'
    exact .traitUse

theorem Class.Keeps.refl (c : Class) : c.Keeps c := ⟨rfl, rfl, rfl, List.forall₂_same.2 fun m _ => .refl m⟩

theorem Class.Keeps.trans {c c' c'' : Class} (h : c.Keeps c') (h' : c'.Keeps c'') : c.Keeps c'' :=
  ⟨h'.name.trans h.name, h'.parent.trans h.parent, h'.interfaces.trans h.interfaces,
    forall₂_trans (fun _ _ _ => .trans) h.members h'.members⟩

theorem Interface.Keeps.trans {i i' i'' : Interface} (h : i.Keeps i') (h' : i'.Keeps i'') : i.Keeps i'' :=
  ⟨h'.name.trans h.name, h'.parents.trans h.parents, forall₂_trans (fun _ _ _ => .trans) h.members h'.members⟩

/-- A class keeps its signature and the script APIs that it is known to ask for. -/
def Class.Same (c c' : Class) : Prop := c.Keeps c' ∧ c'.scriptApis = c.scriptApis

theorem Class.Same.trans {c c' c'' : Class} (h : c.Same c') (h' : c'.Same c'') : c.Same c'' :=
  ⟨h.1.trans h'.1, h'.2.trans h.2⟩

/-! ## Declarations of files -/

/-- The declarations of two files, one by one. -/
def SourceFile.Declares (C : Class → Class → Prop) (f f' : SourceFile) : Prop :=
  List.Forall₂ (Sum.LiftRel C Interface.Keeps) (declarationsOf f.stmts) (declarationsOf f'.stmts)

namespace SourceFile.Declares

variable {C : Class → Class → Prop} {f f' : SourceFile}

theorem classes (h : f.Declares C f') : List.Forall₂ C f.classes f'.classes := by
  unfold Declares at h
  unfold SourceFile.classes
  generalize declarationsOf f.stmts = ds at h
  generalize declarationsOf f'.stmts = ds' at h
  induction h with
  | nil => exact .nil
  | cons hd _ ih =>
    cases hd with
    | inl hc => exact .cons hc ih
    | inr _ => exact ih

theorem interfaces (h : f.Declares C f') : List.Forall₂ Interface.Keeps f.interfaces f'.interfaces := by
  unfold Declares at h
  unfold SourceFile.interfaces
  generalize declarationsOf f.stmts = ds at h
  generalize declarationsOf f'.stmts = ds' at h
  induction h with
  | nil => exact .nil
  | cons hd _ ih =>
    cases hd with
    | inl _ => exact ih
    | inr hi => exact .cons hi ih

end SourceFile.Declares

theorem declares_trans {C C' C'' : Class → Class → Prop} (hC : ∀ c c' c'', C c c' → C' c' c'' → C'' c c'')
    {ds ds' ds'' : List (Class ⊕ Interface)} (h : List.Forall₂ (Sum.LiftRel C Interface.Keeps) ds ds')
    (h' : List.Forall₂ (Sum.LiftRel C' Interface.Keeps) ds' ds'') :
    List.Forall₂ (Sum.LiftRel C'' Interface.Keeps) ds ds'' := by
  refine forall₂_trans (fun _ _ _ hd hd' => ?_) h h'
  cases hd with
  | inl hc =>
    cases hd' with
    | inl hc' => exact .inl (hC _ _ _ hc hc')
  | inr hi =>
    cases hd' with
    | inr hi' => exact .inr (hi.trans hi')

/-! ## Passes that keep signatures -/

theorem declarationsOf_append (ss ss' : List Stmt) :
    declarationsOf (ss ++ ss') = declarationsOf ss ++ declarationsOf ss' := by
  induction ss with
  | nil => rfl
  | cons s ss ih => rw [List.cons_append, declarationsOf, ih, declarationsOf, List.append_assoc]

theorem Stmt.declarations_eq_nil {s : Stmt} (h : (Part.stmt s).children = []) : s.declarations = [] := by
  cases s with
  | classDecl | interfaceDecl => cases h
  | nsBlock _ _ body _ =>
    cases body with
    | nil => rfl
    | cons => cases h
  | _ => rfl

section Signed

variable {κ : Type}

/-- Signatures are kept, and classes become what `C` says. -/
def Signed (C : Class → Class → Prop) : Change κ := fun _ p ps _ =>
  match p, ps with
  | .param p, [.param p'] => p.Keeps p'
  | .method m, [.method m'] => m.Keeps m'
  | .cls c, [.cls c'] => C c c'
  | .iface i, [.iface i'] => i.Keeps i'
  | .stmt s, ps => ∃ ss, ps = Part.stmts ss ∧
      List.Forall₂ (Sum.LiftRel C Interface.Keeps) s.declarations (declarationsOf ss)
  | _, _ => True

namespace Signed

variable {C : Class → Class → Prop} {k k' : κ}

theorem params {ps ps' : List Param} (h : Each (Signed C).param k ps ps' k') :
    List.Forall₂ Param.Keeps ps ps' := by
  induction h with
  | nil => exact .nil
  | cons hp _ ih => exact .cons hp ih

theorem member {m m' : Member} (h : (Signed C).Member k m m' k') : m.Keeps m' := by
  cases h with
  | property => exact .property rfl
  | const => exact .const rfl
  | method hm => exact .method hm
  | traitUse => exact .traitUse

theorem members {ms ms' : List Member} (h : Each (Signed C).Member k ms ms' k') :
    List.Forall₂ Member.Keeps ms ms' := by
  induction h with
  | nil => exact .nil
  | cons hm _ ih => exact .cons (member hm) ih

theorem interfaceMembers {ms ms' : List Member} (h : Each (Signed C).InterfaceMember k ms ms' k') :
    List.Forall₂ Member.Keeps ms ms' := by
  induction h with
  | nil => exact .nil
  | cons hm _ ih =>
    refine .cons ?_ ih
    cases hm with
    | property => exact .refl _
    | other _ hm => exact member hm

theorem stmts {ss ss' : List Stmt} (h : (Signed C).Stmts k ss ss' k') :
    List.Forall₂ (Sum.LiftRel C Interface.Keeps) (declarationsOf ss) (declarationsOf ss') := by
  induction h with
  | nil => exact .nil
  | cons hs _ ih =>
    obtain ⟨ts, hts, hs⟩ := hs
    obtain rfl := List.map_injective_iff.2 (fun _ _ => Part.stmt.inj) hts
    rw [declarationsOf, declarationsOf_append]
    exact List.rel_append hs ih

/-- A statement that is rebuilt declares what it did. -/
theorem stmt {s s' : Stmt} (h : Rebuilt (Signed C) k (.stmt s) (.stmt s') k') :
    Signed C k (.stmt s) (Part.stmts [s']) k' := by
  refine ⟨[s'], rfl, ?_⟩
  rw [declarationsOf, declarationsOf, List.append_nil]
  cases h with
  | leaf hs =>
    rw [Stmt.declarations_eq_nil hs]
    exact .nil
  | classDecl hc => exact .cons (.inl hc) .nil
  | interfaceDecl hi => exact .cons (.inr hi) .nil
  | nsBlock hb => exact stmts hb
  | _ => exact .nil

theorem method {m m' : Method} (h : Rebuilt (Signed C) k (.method m) (.method m') k') : m.Keeps m' := by
  cases h with
  | leaf => exact .refl m
  | method hps _ => exact ⟨rfl, params hps⟩

theorem param {p p' : Param} (h : Rebuilt (Signed C) k (.param p) (.param p') k') : p.Keeps p' := by
  cases h with
  | leaf => exact .refl p
  | param => exact ⟨rfl, .inl rfl⟩

theorem cls {c c' : Class} (h : Rebuilt (Signed C) k (.cls c) (.cls c') k') : c.Same c' := by
  cases h with
  | leaf => exact ⟨.refl c, rfl⟩
  | cls hms => exact ⟨⟨rfl, rfl, rfl, members hms⟩, rfl⟩

theorem iface {i i' : Interface} (h : Rebuilt (Signed C) k (.iface i) (.iface i') k') : i.Keeps i' := by
  cases h with
  | leaf => exact ⟨rfl, rfl, List.forall₂_same.2 fun m _ => .refl m⟩
  | iface hms => exact ⟨rfl, rfl, interfaceMembers hms⟩

end Signed

/-- An action may do anything, as far as the logic says. -/
def Logic.Idle {m : Type → Type} [Monad m] (L : Logic m κ) : Prop :=
  ∀ {α : Type} (k : κ) (act : m α), L.Gives k act fun _ _ => True

namespace Logic.Idle

theorem plain : (Logic.plain κ).Idle := fun _ _ => trivial

theorem unlessFailed {ε : Type} : (Logic.unlessFailed ε κ).Idle := fun _ _ _ _ => trivial

theorem anyState {σ : Type} : (Logic.anyState σ κ).Idle := fun _ _ _ => trivial

theorem answered {ε σ : Type} : (Logic.answered ε κ fun _ : σ => ()).Idle :=
  fun _ _ _ => ⟨rfl, fun _ _ => trivial⟩

theorem reading {m : Type → Type} [Monad m] {ρ : Type} {L : Logic m Unit} (h : L.Idle) : (Logic.reading ρ L).Idle :=
  fun _ _ => h _ _

end Logic.Idle

namespace Signed

/-! What a pass leaves alone at one kind of part keeps its signature. -/

variable {m : Type → Type} [Monad m] {L : Logic m κ} {C : Class → Class → Prop} {k : κ}

theorem stmtKept {s : Stmt} {act : m Stmt}
    (h : ∀ k, L.Gives k act fun s' k' => Rebuilt (Signed C) k (.stmt s) (.stmt s') k') :
    L.Gives k (do return [← act]) fun ss k' => Signed C k (.stmt s) (Part.stmts ss) k' :=
  L.bind (h k) fun _ _ hs => L.pure (stmt hs)

theorem paramKept {p : Param} {act : m Param}
    (h : ∀ k, L.Gives k act fun p' k' => Rebuilt (Signed C) k (.param p) (.param p') k') :
    L.Gives k act fun p' _ => p.Keeps p' :=
  L.weaken (h k) fun _ _ => param

theorem methodKept {d : Method} {act : m Method}
    (h : ∀ k, L.Gives k act fun d' k' => Rebuilt (Signed C) k (.method d) (.method d') k') :
    L.Gives k act fun d' _ => d.Keeps d' :=
  L.weaken (h k) fun _ _ => method

theorem clsKept {c : Class} {act : m Class}
    (h : ∀ k, L.Gives k act fun c' k' => Rebuilt (Signed C) k (.cls c) (.cls c') k') :
    L.Gives k act fun c' _ => c.Same c' :=
  L.weaken (h k) fun _ _ => cls

theorem ifaceKept {i : Interface} {act : m Interface}
    (h : ∀ k, L.Gives k act fun i' k' => Rebuilt (Signed C) k (.iface i) (.iface i') k') :
    L.Gives k act fun i' _ => i.Keeps i' :=
  L.weaken (h k) fun _ _ => iface

end Signed

/-- The obligations of a pass that keeps signatures. -/
structure Signs {m : Type → Type} [Monad m] (L : Logic m κ) (pass : Pass m) (C : Class → Class → Prop) :
    Prop where
  idle : L.Idle
  stmt : ∀ {k s act}, (∀ k, L.Gives k act fun s' k' => Rebuilt (Signed C) k (.stmt s) (.stmt s') k') →
      L.Gives k (pass.stmt s act) fun ss k' => Signed C k (.stmt s) (Part.stmts ss) k'
  param : ∀ {k p act}, (∀ k, L.Gives k act fun p' k' => Rebuilt (Signed C) k (.param p) (.param p') k') →
      L.Gives k (pass.param p act) fun p' _ => p.Keeps p'
  method : ∀ {k d act}, (∀ k, L.Gives k act fun d' k' => Rebuilt (Signed C) k (.method d) (.method d') k') →
      L.Gives k (pass.method d act) fun d' _ => d.Keeps d'
  cls : ∀ {k c act}, (∀ k, L.Gives k act fun c' k' => Rebuilt (Signed C) k (.cls c) (.cls c') k') →
      L.Gives k (pass.cls c act) fun c' _ => C c c'
  iface : ∀ {k i act}, (∀ k, L.Gives k act fun i' k' => Rebuilt (Signed C) k (.iface i) (.iface i') k') →
      L.Gives k (pass.iface i act) fun i' _ => i.Keeps i'

variable {m : Type → Type} [Monad m] {L : Logic m κ} {pass : Pass m} {C : Class → Class → Prop}

/-- What happens to expressions does not count. -/
theorem Signs.sound (h : Signs L pass C) : Sound L pass (Signed C) fun _ _ _ _ => True where
  below _ _ := trivial
  array _ := h.idle _ _
  store _ := h.idle _ _
  expr _ := h.idle _ _
  stmt := h.stmt
  param := h.param
  closure _ := h.idle _ _
  clause _ := h.idle _ _
  method := h.method
  cls := h.cls
  iface := h.iface

theorem Signs.declarations (h : Signs L pass C) (k : κ) (ss : List Stmt) :
    L.Gives k (stmtsThrough pass ss) fun ss' _ =>
      List.Forall₂ (Sum.LiftRel C Interface.Keeps) (declarationsOf ss) (declarationsOf ss') :=
  L.weaken (h.sound.stmts ss k) fun _ _ => Signed.stmts

end Signed

end ClassScript
