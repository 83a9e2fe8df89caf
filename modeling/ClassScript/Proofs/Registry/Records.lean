import ClassScript.Proofs.Registry.Names
import ClassScript.Proofs.Tree.Signature
import Mathlib.Data.List.Nodup
/-!
# What the registry records

An entry tells the signature of its declaration: where it comes from and which constants it declares. A
registry that files were added to has one entry for each class and interface in them, and no name twice
(`Records`). As it speaks of signatures only, it does so of the files behind any pass that keeps them.
-/

namespace ClassScript

def Member.const? : Member → Option Constant
  | const d => some d
  | _ => none

/-- The constants among some members. -/
def constantsOf (ms : List Member) : List Constant := ms.filterMap Member.const?

/-- The names of the constants among some members. -/
def constantNames (ms : List Member) : List String := (constantsOf ms).map (·.name)

theorem constantNames_cons (m : Member) (ms : List Member) :
    constantNames (m :: ms) = (m.const?.map (·.name)).toList ++ constantNames ms := by
  cases m <;> rfl

theorem Member.Keeps.constantNames {ms ms' : List Member}
    (h : List.Forall₂ Member.Keeps ms ms') : constantNames ms' = constantNames ms := by
  induction h with
  | nil => rfl
  | cons hm _ ih =>
    rw [constantNames_cons, constantNames_cons, ih]
    cases hm with
    | const hname => simp [const?, hname]
    | _ => rfl

/-- Where no name occurs twice, an entry is found under its name. -/
theorem find?_of_nodup {α : Type} {name : α → String} {as : List α} (h : (as.map name).Nodup) {a : α}
    (ha : a ∈ as) : as.find? (name · == name a) = some a := by
  induction as with
  | nil => cases ha
  | cons b as ih =>
    obtain ⟨hb, h⟩ := List.nodup_cons.1 h
    rcases List.mem_cons.1 ha with rfl | ha
    · simp
    · have hne : name b ≠ name a := fun heq => hb (heq ▸ List.mem_map_of_mem ha)
      rw [List.find?_cons_of_neg (by simpa using hne), ih h ha]

/-- A table has the given names. -/
def MemberTable.Has (t : MemberTable) (names : List String) : Prop :=
  ∀ k, (t.lookup k).isSome = true ↔ k ∈ names

/-- What an entry tells of a class. -/
@[mk_iff]
structure ClassEntry.Tells (e : ClassEntry) (c : Class) : Prop where
  name : e.name = c.qualifiedName
  parent : e.parent = c.parent.map Name.joined
  interfaces : e.interfaces = c.interfaces.map Name.joined
  constants : e.constants.Has (constantNames c.members)

/-- What an entry tells of an interface. -/
@[mk_iff]
structure InterfaceEntry.Tells (e : InterfaceEntry) (i : Interface) : Prop where
  name : e.name = i.qualifiedName
  parents : e.parents = i.parents.map Name.joined
  constants : e.constants.Has (constantNames i.members)

/-- Entries tell only what signatures say. -/
theorem Class.Keeps.tells_iff {c c' : Class} (h : c.Keeps c') (e : ClassEntry) : e.Tells c' ↔ e.Tells c := by
  rw [ClassEntry.tells_iff, ClassEntry.tells_iff, h.name, h.parent, h.interfaces,
    Member.Keeps.constantNames h.members]

theorem Interface.Keeps.tells_iff {i i' : Interface} (h : i.Keeps i') (e : InterfaceEntry) :
    e.Tells i' ↔ e.Tells i := by
  rw [InterfaceEntry.tells_iff, InterfaceEntry.tells_iff, h.name, h.parents, Member.Keeps.constantNames h.members]

namespace Registry

variable {r r' : Registry}

/-! ## Entries -/

theorem put_has {t : MemberTable} {names : List String} (h : t.Has names) (name : String) (v : Visibility) :
    (t.put name v).Has (names ++ [name]) := by
  intro k
  rw [lookup_put, List.mem_append, List.mem_singleton, ← h k]
  split
  · next hk => simp [hk]
  · next hk => simp [hk]

/-- A table to which every constant among the members is added has these, and those it had before. -/
theorem foldlM_constants {β : Type} {f : β → Member → Except Fault β} {t : β → MemberTable}
    (hf : ∀ {b m b' ns}, f b m = .ok b' → (t b).Has ns → (t b').Has (ns ++ constantNames [m]))
    {ms : List Member} {b b' : β} {ns : List String} (h : ms.foldlM f b = .ok b') (hb : (t b).Has ns) :
    (t b').Has (ns ++ constantNames ms) := by
  induction ms generalizing b ns with
  | nil =>
    cases h
    simpa [constantNames, constantsOf] using hb
  | cons m ms ih =>
    obtain ⟨b₁, hstep, h⟩ := bind_eq_ok.1 h
    have hms := ih h (hf hstep hb)
    rw [constantNames_cons m [], List.append_assoc] at hms
    rw [constantNames_cons]
    simpa [constantNames, constantsOf] using hms

theorem classEntry_tells {c : Class} {isInternal : Bool} {e : ClassEntry}
    (h : classEntry c isInternal = .ok e) : e.Tells c := by
  have hheads : (e.parent, e.interfaces) = (c.parent.map Name.joined, c.interfaces.map Name.joined) := by
    refine foldlM_keeps (g := fun e : ClassEntry => (e.parent, e.interfaces)) (fun {e m e'} hstep => ?_) h
    cases m with
    | traitUse => cases hstep; rfl
    | _ =>
      obtain ⟨_, -, hstep⟩ := bind_eq_ok.1 hstep
      cases hstep
      rfl
  refine ⟨classEntry_name h, (Prod.mk.inj hheads).1, (Prod.mk.inj hheads).2, ?_⟩
  have hempty : MemberTable.Has [] [] := by simp [MemberTable.Has]
  refine foldlM_constants (t := ClassEntry.constants) (fun {e m e' ns} hstep hns => ?_) h hempty
  cases m with
  | const d =>
    obtain ⟨v, -, hstep⟩ := bind_eq_ok.1 hstep
    cases hstep
    exact put_has hns d.name v
  | traitUse =>
    cases hstep
    exact (List.append_nil ns).symm ▸ hns
  | _ =>
    obtain ⟨_, -, hstep⟩ := bind_eq_ok.1 hstep
    cases hstep
    exact (List.append_nil ns).symm ▸ hns

theorem interfaceEntry_tells {i : Interface} {isInternal : Bool} {e : InterfaceEntry}
    (h : interfaceEntry i isInternal = .ok e) : e.Tells i := by
  have hparents : e.parents = i.parents.map Name.joined := by
    refine foldlM_keeps (g := InterfaceEntry.parents) (fun {e m e'} hstep => ?_) h
    cases m with
    | traitUse | property => cases hstep; rfl
    | _ =>
      obtain ⟨_, -, hstep⟩ := bind_eq_ok.1 hstep
      cases hstep
      rfl
  refine ⟨interfaceEntry_name h, hparents, ?_⟩
  have hempty : MemberTable.Has [] [] := by simp [MemberTable.Has]
  refine foldlM_constants (t := InterfaceEntry.constants) (fun {e m e' ns} hstep hns => ?_) h hempty
  cases m with
  | const d =>
    obtain ⟨v, -, hstep⟩ := bind_eq_ok.1 hstep
    cases hstep
    exact put_has hns d.name v
  | traitUse | property =>
    cases hstep
    exact (List.append_nil ns).symm ▸ hns
  | method =>
    obtain ⟨_, -, hstep⟩ := bind_eq_ok.1 hstep
    cases hstep
    exact (List.append_nil ns).symm ▸ hns

/-! ## Registries -/

/-- What each of several updates extends, they extend together. -/
theorem forM_extends {α : Type} {g : α → Registry → Result Registry} {P : List α → Registry → Prop}
    (hg : ∀ {xs x r r'}, P xs r → g x r = .ok r' → P (xs ++ [x]) r') {xs₀ xs : List α} {r r' : Registry}
    {u : Unit} (h₀ : P xs₀ r) (h : (xs.forM fun x => update (g x)).run.run r = (.ok u, r')) :
    P (xs₀ ++ xs) r' := by
  induction xs generalizing r xs₀ with
  | nil =>
    cases h
    simpa using h₀
  | cons x xs ih =>
    obtain ⟨_, r₁, hx, h⟩ := query_bind_ok h
    simpa using ih (hg h₀ (update_ok hx)) h

/-- The entries of the registry are those of these classes and interfaces, each name once. -/
structure Records (r : Registry) (classes : List Class) (interfaces : List Interface) : Prop where
  classes : List.Forall₂ ClassEntry.Tells r.classes classes
  interfaces : List.Forall₂ InterfaceEntry.Tells r.interfaces interfaces
  nodup : r.names.Nodup

namespace Records

variable {cs cs' : List Class} {is is' : List Interface}

theorem empty : Records {} [] [] := ⟨.nil, .nil, by simp [names]⟩

theorem addClass (h : Records r cs is) {c : Class} {isInternal : Bool}
    (hadd : r.addClass c isInternal = .ok r') : Records r' (cs ++ [c]) is := by
  have hnodup := (addClass_adds hadd).nodup h.nodup
  obtain ⟨_, -, hadd⟩ := bind_eq_ok.1 hadd
  obtain ⟨e, he, hadd⟩ := bind_eq_ok.1 hadd
  cases hadd
  exact ⟨List.rel_append h.classes (.cons (classEntry_tells (mapError_eq_ok.1 he)) .nil), h.interfaces, hnodup⟩

theorem addInterface (h : Records r cs is) {i : Interface} {isInternal : Bool}
    (hadd : r.addInterface i isInternal = .ok r') : Records r' cs (is ++ [i]) := by
  have hnodup := (addInterface_adds hadd).nodup h.nodup
  obtain ⟨_, -, hadd⟩ := bind_eq_ok.1 hadd
  obtain ⟨e, he, hadd⟩ := bind_eq_ok.1 hadd
  cases hadd
  exact ⟨h.classes, List.rel_append h.interfaces (.cons (interfaceEntry_tells (mapError_eq_ok.1 he)) .nil), hnodup⟩

theorem addFile (h : Records r cs is) {f : SourceFile} {isInternal : Bool} {declared : List String}
    (hadd : (addFile f isInternal).run.run r = (.ok declared, r')) :
    Records r' (cs ++ f.classes) (is ++ f.interfaces) := by
  obtain ⟨_, r₁, hinterfaces, hadd⟩ := query_bind_ok hadd
  obtain ⟨_, r₂, hclasses, hadd⟩ := query_bind_ok hadd
  cases hadd
  have hfirst : Records r₁ cs (is ++ f.interfaces) :=
    forM_extends (P := fun is r => Records r cs is) (fun hr hstep => hr.addInterface (mapError_eq_ok.1 hstep))
      h hinterfaces
  exact forM_extends (P := fun cs r => Records r cs (is ++ f.interfaces))
    (fun hr hstep => hr.addClass (mapError_eq_ok.1 hstep)) hfirst hclasses

/-- A registry that files were added to records what they declare. -/
theorem ofFiles {fs : List (SourceFile × Bool)} {declared : List (List String)}
    (h : (fs.mapM fun x => Registry.addFile x.1 x.2).run.run {} = (.ok declared, r)) :
    Records r (fs.flatMap (·.1.classes)) (fs.flatMap (·.1.interfaces)) := by
  have hall (fs : List (SourceFile × Bool)) (r₀ : Registry) (cs : List Class) (is : List Interface)
      (declared : List (List String)) (h₀ : Records r₀ cs is)
      (h : (fs.mapM fun x => Registry.addFile x.1 x.2).run.run r₀ = (.ok declared, r)) :
      Records r (cs ++ fs.flatMap (·.1.classes)) (is ++ fs.flatMap (·.1.interfaces)) := by
    induction fs generalizing r₀ cs is declared with
    | nil =>
      cases h
      simpa using h₀
    | cons x fs ih =>
      rw [List.mapM_cons] at h
      obtain ⟨_, r₁, hx, h⟩ := query_bind_ok h
      obtain ⟨_, r₂, hfs, h⟩ := query_bind_ok h
      cases h
      simpa using ih _ _ _ _ (h₀.addFile hx) hfs
  exact hall fs {} [] [] declared empty h

theorem of_entries (h : Records r cs is) (hentries : r'.entries = r.entries) : Records r' cs is := by
  obtain ⟨hclasses, hinterfaces⟩ := Prod.mk.inj hentries
  refine ⟨hclasses ▸ h.classes, hinterfaces ▸ h.interfaces, ?_⟩
  rw [names, hclasses, hinterfaces]
  exact h.nodup

/-- A registry records as well what becomes of files whose signatures are kept. -/
theorem iff_of_declares {C : Class → Class → Prop} (hC : ∀ c c', C c c' → c.Keeps c') {fs fs' : List SourceFile}
    (hfs : List.Forall₂ (SourceFile.Declares C) fs fs') :
    Records r (fs.flatMap (·.classes)) (fs.flatMap (·.interfaces)) ↔
      Records r (fs'.flatMap (·.classes)) (fs'.flatMap (·.interfaces)) := by
  have hcs : List.Forall₂ C (fs.flatMap (·.classes)) (fs'.flatMap (·.classes)) :=
    List.rel_flatMap hfs fun _ _ hf => hf.classes
  have his : List.Forall₂ Interface.Keeps (fs.flatMap (·.interfaces)) (fs'.flatMap (·.interfaces)) :=
    List.rel_flatMap hfs fun _ _ hf => hf.interfaces
  constructor
  · intro h
    exact ⟨forall₂_trans (fun e c c' he hc => ((hC c c' hc).tells_iff e).2 he) h.classes hcs,
      forall₂_trans (fun e _ _ he hi => (hi.tells_iff e).2 he) h.interfaces his, h.nodup⟩
  · intro h
    exact ⟨forall₂_trans (fun e c' c he hc => ((hC c c' hc).tells_iff e).1 he) h.classes hcs.flip,
      forall₂_trans (fun e _ _ he hi => (hi.tells_iff e).1 he) h.interfaces his.flip, h.nodup⟩

theorem names_eq (h : Records r cs is) :
    r.names = cs.map Class.qualifiedName ++ is.map Interface.qualifiedName := by
  rw [names, map_eq_of_forall₂ (fun _ _ he => he.name) h.classes,
    map_eq_of_forall₂ (fun _ _ he => he.name) h.interfaces]

/-- A class is told by its name. -/
theorem class_ext (h : Records r cs is) {c c' : Class} (hc : c ∈ cs) (hc' : c' ∈ cs)
    (hname : c.qualifiedName = c'.qualifiedName) : c = c' :=
  List.inj_on_of_nodup_map (List.nodup_append.1 (h.names_eq ▸ h.nodup)).1 hc hc' hname

theorem interface_ext (h : Records r cs is) {i i' : Interface} (hi : i ∈ is) (hi' : i' ∈ is)
    (hname : i.qualifiedName = i'.qualifiedName) : i = i' :=
  List.inj_on_of_nodup_map (List.nodup_append.1 (h.names_eq ▸ h.nodup)).2.1 hi hi' hname

/-- Classes and interfaces have different names. -/
theorem class_ne_interface (h : Records r cs is) {c : Class} {i : Interface} (hc : c ∈ cs) (hi : i ∈ is) :
    c.qualifiedName ≠ i.qualifiedName := fun hname =>
  List.disjoint_of_nodup_append (h.names_eq ▸ h.nodup) (List.mem_map_of_mem hc)
    (hname ▸ List.mem_map_of_mem hi)

/-- The entry of a class that is recorded. -/
theorem class? (h : Records r cs is) {c : Class} (hc : c ∈ cs) :
    ∃ e, r.class? c.qualifiedName = some e ∧ e.Tells c := by
  obtain ⟨e, he, htells⟩ := exists_of_forall₂ h.classes hc
  exact ⟨e, htells.name ▸ find?_of_nodup (List.nodup_append.1 h.nodup).1 he, htells⟩

theorem interface? (h : Records r cs is) {i : Interface} (hi : i ∈ is) :
    ∃ e, r.interface? i.qualifiedName = some e ∧ e.Tells i := by
  obtain ⟨e, he, htells⟩ := exists_of_forall₂ h.interfaces hi
  exact ⟨e, htells.name ▸ find?_of_nodup (List.nodup_append.1 h.nodup).2.1 he, htells⟩

end Records

end Registry

end ClassScript
