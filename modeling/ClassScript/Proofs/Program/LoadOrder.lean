import ClassScript.Proofs.Emit.Section
import ClassScript.Proofs.Program.Compiled
import ClassScript.Proofs.Registry.Behind
/-!
# The order of loading

When a program is loaded, its sections are evaluated one after the other. What a section reads for its
parent and for tables of constants is declared before it, whatever the program is. The values of constants
are the only other reads, and they may refer to any declaration. So nothing is read too early exactly if
constants refer to earlier declarations only (`loadsInOrder_iff`).
-/

namespace ClassScript

open Emit Script

/-! ## What sections read -/

/-- The paths that are read when a section is evaluated. The object that a value is assigned to is known
by then. -/
def sectionReads : Node → List (List String)
  | .statement (.assign _ v) => v.loads
  | n => n.loads

/-- The value of a constant reads a path, as it is emitted. -/
def Constant.Reads (ctx : Context) (k : Constant) (q : List String) : Prop :=
  ∃ v, (emitExpr ctx k.value).run none = .ok (v, none) ∧ q ∈ v.loads

/-- The path leads to a declaration, to its table of constants or to its constructor. -/
def Belongs (q : List String) (n : String) : Prop :=
  q = Name.partsOf n ∨ Name.partsOf n ++ [constantsKey] <+: q ∨ Name.partsOf n ++ [constructorName] <+: q

instance (q : List String) (n : String) : Decidable (Belongs q n) := inferInstanceAs (Decidable (_ ∨ _ ∨ _))

theorem Belongs.table (n : String) : Belongs (Name.partsOf n ++ [constantsKey]) n := .inr (.inl List.prefix_rfl)

/-- All that a section reads is declared before it. -/
def InOrder (before : List String) (s : Node) : Prop := ∀ q ∈ sectionReads s, ∃ d ∈ before, Belongs q d

instance (before : List String) (s : Node) : Decidable (InOrder before s) :=
  inferInstanceAs (Decidable (∀ q ∈ sectionReads s, ∃ d ∈ before, Belongs q d))

/-- All that a constant reads is declared before it. -/
def Constant.InOrder (ctx : Context) (before : List String) (k : Constant) : Prop :=
  ∀ q, k.Reads ctx q → ∃ d ∈ before, Belongs q d

/-- Outside of closures, the value of the constant refers to what it reads. -/
theorem Constant.Reads.refers {ctx : Context} {k : Constant} {q : List String} (h : k.Reads ctx q) :
    ∃ path ∈ k.value.references ctx.constantsOwner, path <+: q := by
  obtain ⟨v, hv, hq⟩ := h
  exact (emitExpr_atLoad ctx k.value (fun _ hp => hp) none v none rfl hv).2 q hq

namespace Emit

theorem reads_iff {ctx : Context} {table : Node} {ks : List Constant} {stmts : List Node}
    (h : List.Forall₂ (Initialises ctx table) ks stmts) {q : List String} :
    (∃ s ∈ stmts, q ∈ sectionReads s) ↔ ∃ k ∈ ks, k.Reads ctx q := by
  induction h with
  | nil => simp
  | @cons k _ _ _ hk _ ih =>
    obtain ⟨v, hv, rfl⟩ := hk
    have hreads : q ∈ sectionReads (constantStatement table k.name v) ↔ k.Reads ctx q := by
      constructor
      · exact fun hq => ⟨v, hv, hq⟩
      · rintro ⟨v', hv', hq⟩
        cases hv.symm.trans hv'
        exact hq
    simp only [List.exists_mem_cons_iff, ih, hreads]

theorem loads_copyNode (tables : List Node) : (copyNode tables).loads = tables.flatMap Node.loads := by
  have hcopy : (Node.identifier copyName).loads = [] := Node.loads_identifier (by decide)
  rw [copyNode, Node.loads_eq rfl]
  simp [Node.evaluated, Node.children, hcopy]

/-- A constant that is added to the table of a class, which is no path from the root. -/
theorem loads_constantStatement {ctx : Context} {k : Constant} {s : Node}
    (h : Initialises ctx (.identifier constantsName) k s) : s.loads = sectionReads s := by
  obtain ⟨v, -, rfl⟩ := h
  have htarget : (Node.property (.identifier constantsName) (keyNode k.name)).loads = [] := by
    rw [Node.loads_keyed (by decide), Node.loads_identifier (by decide)]
  have hassign : (Node.assign (.property (.identifier constantsName) (keyNode k.name)) v).loads = v.loads := by
    rw [Node.loads_eq rfl]
    simp [Node.evaluated, Node.children, htarget]
  rw [constantStatement, Node.loads_eq rfl]
  simp [Node.evaluated, Node.children, hassign, sectionReads]

theorem loads_isFunction {n : Node} (h : IsFunction n) : n.loads = [] := by
  obtain ⟨params, body, rfl⟩ := h
  exact Node.loads_function params body

theorem loads_classObject {make : Node} (h : IsFunction make) : (classObject make).loads = [] := by
  have hextend : (Node.identifier "extend").loads = [] := Node.loads_identifier (by decide)
  have htable : (Node.identifier constantsName).loads = [] := Node.loads_identifier (by decide)
  rw [classObject, Node.loads_eq rfl]
  simp only [Node.evaluated, Node.children, Option.toList_some, List.flatMap_singleton]
  rw [Node.loads_eq rfl]
  simp [Node.evaluated, Node.children, hextend, htable, loads_isFunction h]

theorem loads_classTable_start (interfaces : List String) :
    (classTable interfaces).loads = interfaces.map fun i => Name.partsOf i ++ [constantsKey] := by
  have hparent : (Node.property (.identifier "parent") (keyNode constantsKey)).loads = [] := by
    rw [Node.loads_keyed (by decide), Node.loads_identifier (by decide)]
  rw [classTable, Node.loads_eq rfl]
  simp only [Node.evaluated, Node.children, Option.toList_some, List.flatMap_singleton]
  rw [loads_copyNode, List.flatMap_cons, hparent, loads_tableNodes, List.nil_append]

/-- What is read for a class: its parent, the tables of its interfaces, and what its constants read. -/
theorem loads_class {parent extend make : Node} (interfaces : List String) (constants : List Node)
    (hextend : IsFunction extend) (hmake : IsFunction make) :
    (Node.call (classFunction interfaces constants extend make) [parent]).loads = parent.loads ++
      ((interfaces.map fun i => Name.partsOf i ++ [constantsKey]) ++ constants.flatMap Node.loads) := by
  have hend : (Node.declare "extend" (some extend)).loads = [] := by
    rw [Node.loads_eq rfl]
    simp [Node.evaluated, Node.children, loads_isFunction hextend]
  have hbody : (Node.block (classTable interfaces :: constants ++
      [.declare "extend" (some extend), classObject make])).loads =
      (interfaces.map fun i => Name.partsOf i ++ [constantsKey]) ++ constants.flatMap Node.loads := by
    rw [Node.loads_eq rfl]
    simp [Node.evaluated, Node.children, loads_classTable_start, hend, loads_classObject hmake]
  rw [classFunction, Node.loads_eq rfl]
  simp only [Node.evaluated, List.cons_append, List.nil_append, List.flatMap_cons, List.flatMap_nil, List.append_nil]
  rw [← hbody]
  rfl

theorem loads_parentNode (c : Class) : c.parentNode.loads = c.parent.toList.map fun p => Name.partsOf p.joined := by
  unfold Class.parentNode
  cases c.parent with
  | none => exact Node.loads_identifier (by decide)
  | some p => exact Node.loads_path (rootPath?_pathNode _)

end Emit

/-- What is read for a class: its parent, the tables of its interfaces, and what its constants read. -/
theorem Class.mem_reads_iff {r : Registry} {c : Class} {e : ClassEntry} {n : Node} (h : c.emit r = .ok n)
    (he : r.class? c.qualifiedName = some e) {q : List String} :
    q ∈ sectionReads n ↔ (∃ p ∈ c.parent, q = Name.partsOf p.joined) ∨
      (∃ i ∈ r.tableInterfaces e, q = Name.partsOf i ++ [constantsKey]) ∨
      ∃ k ∈ constantsOf c.members, k.Reads ⟨r, some c.qualifiedName⟩ q := by
  obtain ⟨-, e', constants, extend, make, he', hconstants, hextend, hmake, rfl⟩ := Class.emit_eq_section h
  cases he.symm.trans he'
  have hloads : constants.flatMap Node.loads = constants.flatMap sectionReads :=
    List.flatMap_congr fun s hs => by
      obtain ⟨k, -, hk⟩ := exists_of_forall₂ hconstants hs
      exact loads_constantStatement hk
  rw [sectionReads, loads_class _ _ hextend hmake, loads_parentNode, hloads, ← reads_iff hconstants]
  simp [eq_comm]

/-- Parents and interfaces come before a class, so only its constants may read too early. -/
theorem Class.reads_cases {r : Registry} {c : Class} {e : ClassEntry} {n : Node} (h : c.emit r = .ok n)
    (he : r.class? c.qualifiedName = some e) (htells : e.Tells c) {before : List String}
    (hparent : r.parentOf c.qualifiedName ⊆ before) (hinterfaces : ∀ i ∈ r.interfaces, i.name ∈ before)
    {q : List String} (hq : q ∈ sectionReads n) :
    (∃ d ∈ before, Belongs q d) ∨ ∃ k ∈ constantsOf c.members, k.Reads ⟨r, some c.qualifiedName⟩ q := by
  rcases (Class.mem_reads_iff h he).1 hq with ⟨p, hp, rfl⟩ | ⟨i, hi, rfl⟩ | hk
  · refine .inl ⟨p.joined, hparent ?_, .inl rfl⟩
    simp [Registry.parentOf, he, htells.parent, Option.mem_def.1 hp]
  · obtain ⟨entry, hentry⟩ := Option.isSome_iff_exists.1 (List.mem_filter.1 hi).2
    refine .inl ⟨i, ?_, .table i⟩
    exact Registry.interface?_name hentry ▸ hinterfaces entry (Registry.interface?_mem hentry)
  · exact .inr hk

/-- The statement that starts an interface, and those for its constants. -/
theorem Interface.sections_cases {r : Registry} {i : Interface} {e : InterfaceEntry} {ns : List Node}
    (h : i.emit r = .ok ns) (he : r.interface? i.qualifiedName = some e) (htells : e.Tells i)
    {before : List String} (hparents : r.parentsOf i.qualifiedName ⊆ before) :
    ∃ start constants, ns = start :: constants ∧ InOrder before start ∧
      ∀ q, (∃ s ∈ constants, q ∈ sectionReads s) ↔ ∃ k ∈ constantsOf i.members, k.Reads ⟨r, none⟩ q := by
  obtain ⟨-, constants, hconstants, rfl⟩ := Interface.emit_eq_sections h
  refine ⟨_, constants, rfl, fun q hq => ?_, fun q => reads_iff hconstants⟩
  rw [sectionReads, Node.loads_eq rfl] at hq
  simp only [Node.evaluated, Node.children, List.map_cons, List.map_nil, List.flatMap_singleton] at hq
  rw [loads_copyNode, loads_parentTables] at hq
  obtain ⟨m, hm, rfl⟩ := List.mem_map.1 hq
  refine ⟨m, hparents ?_, .table m⟩
  simpa [Registry.parentsOf, he, htells.parents] using hm

/-! ## Programs -/

namespace Program

/-- No section reads what a later one declares. -/
def LoadsInOrder (sections : List (String × Node)) : Prop :=
  EachBehind (fun before s => InOrder (before.map (·.1)) s.2) sections

instance (sections : List (String × Node)) : Decidable (LoadsInOrder sections) :=
  inferInstanceAs (Decidable (EachBehind _ sections))

/-- The constants of a declaration read what is declared before it; those of an interface may also read
the interface, which is there by then. -/
def ConstantsInOrder (r : Registry) (units : List SourceFile) (before : List String) (n : String) : Prop :=
  (∀ c ∈ units.flatMap (·.classes), c.qualifiedName = n →
    ∀ k ∈ constantsOf c.members, k.InOrder ⟨r, some n⟩ before) ∧
  (∀ i ∈ units.flatMap (·.interfaces), i.qualifiedName = n →
    ∀ k ∈ constantsOf i.members, k.InOrder ⟨r, none⟩ (before ++ [n]))

/-- A constant of a declaration reads the path. -/
def ConstantReads (r : Registry) (units : List SourceFile) (n : String) (q : List String) : Prop :=
  (∃ c ∈ units.flatMap (·.classes), c.qualifiedName = n ∧ ∃ k ∈ constantsOf c.members, k.Reads ⟨r, some n⟩ q) ∨
  (∃ i ∈ units.flatMap (·.interfaces), i.qualifiedName = n ∧ ∃ k ∈ constantsOf i.members, k.Reads ⟨r, none⟩ q)

/-- What is known of a declaration in the program: it is emitted behind what it builds on. -/
inductive Placed (r : Registry) (units : List SourceFile) (before : List String) : String × List Node → Prop
  | cls {c : Class} {n : Node} : c ∈ units.flatMap (·.classes) → c.emit r = .ok n →
      r.parentOf c.qualifiedName ⊆ before → (∀ i ∈ r.interfaces, i.name ∈ before) →
      Placed r units before (c.qualifiedName, [n])
  | iface {i : Interface} {ns : List Node} : i ∈ units.flatMap (·.interfaces) → i.emit r = .ok ns →
      r.parentsOf i.qualifiedName ⊆ before → Placed r units before (i.qualifiedName, ns)

/-- Orders give places. -/
theorem blocks_placed {o : Options} {r : Registry} {units : List SourceFile} {entry : String} {p : Parts}
    (h : Compile.parts r o units entry = .ok p) (hnodup : r.names.Nodup) :
    EachBehind (fun before b => Placed r units (before.map (·.1)) b) p.blocks := by
  obtain ⟨is, cs, his, hcs, hinterfaces, hclasses, -⟩ := Compile.parts_eq_ok h
  have hinames : is = p.interfaces.map (·.1) := by
    rw [← map_eq_of_forall₂ (f := id) (fun n x hx => ?_) hinterfaces, List.map_id]
    obtain ⟨_, -, -, hname, -⟩ := Compile.emitInterface_eq_ok hx
    exact hname.symm
  have hcnames : cs = p.classes.map (·.1) := by
    rw [← map_eq_of_forall₂ (f := id) (fun n x hx => ?_) hclasses, List.map_id]
    obtain ⟨_, -, -, hname, -⟩ := Compile.emitClass_eq_ok hx
    exact hname.symm
  obtain ⟨hibehind, hiall⟩ := Registry.interfaceOrder_behind his
  obtain ⟨hcbehind, -⟩ := Registry.classOrder_behind (List.nodup_append.1 hnodup).1 hcs
  rw [hinames] at hibehind hiall
  rw [hcnames] at hcbehind
  refine EachBehind.append.2 ⟨fun before x behind hsplit => ?_, EachBehind.map.2 fun before x behind hsplit => ?_⟩
  · have hbehind := EachBehind.map.1 hibehind before x behind hsplit
    obtain ⟨_, -, hx⟩ := exists_of_forall₂ hinterfaces (b := x) (by simp [hsplit])
    obtain ⟨i, hi, rfl, hname, hemit⟩ := Compile.emitInterface_eq_ok hx
    obtain ⟨n, ns⟩ := x
    subst hname
    exact .iface hi hemit hbehind
  · have hbehind := EachBehind.map.1 hcbehind before x behind hsplit
    obtain ⟨_, -, hx⟩ := exists_of_forall₂ hclasses (b := x) (by simp [hsplit])
    obtain ⟨c, hc, rfl, hname, hemit⟩ := Compile.emitClass_eq_ok hx
    obtain ⟨n, node⟩ := x
    subst hname
    have hbefore : (p.interfaces ++ before.map fun c => (c.1, [c.2])).map (·.1) =
        p.interfaces.map (·.1) ++ before.map (·.1) := by
      simp [Function.comp_def]
    refine .cls hc hemit ?_ ?_
    · rw [hbefore]
      exact fun m hm => List.mem_append_right _ (hbehind hm)
    · rw [hbefore]
      exact fun i hi => List.mem_append_left _ (hiall i hi)

section Blocks

variable {r : Registry} {units : List SourceFile} {before : List String} {b : String × List Node}
  (hrecords : r.Records (units.flatMap (·.classes)) (units.flatMap (·.interfaces)))

include hrecords

theorem constantsInOrder_class {c : Class} (hc : c ∈ units.flatMap (·.classes)) :
    ConstantsInOrder r units before c.qualifiedName ↔
      ∀ k ∈ constantsOf c.members, k.InOrder ⟨r, some c.qualifiedName⟩ before := by
  constructor
  · exact fun h => h.1 c hc rfl
  · refine fun h => ⟨fun c' hc' hname => ?_, fun i hi hname => ?_⟩
    · exact hrecords.class_ext hc' hc hname ▸ h
    · exact absurd hname.symm (hrecords.class_ne_interface hc hi)

theorem constantsInOrder_interface {i : Interface} (hi : i ∈ units.flatMap (·.interfaces)) :
    ConstantsInOrder r units before i.qualifiedName ↔
      ∀ k ∈ constantsOf i.members, k.InOrder ⟨r, none⟩ (before ++ [i.qualifiedName]) := by
  constructor
  · exact fun h => h.2 i hi rfl
  · refine fun h => ⟨fun c hc hname => ?_, fun i' hi' hname => ?_⟩
    · exact absurd hname (hrecords.class_ne_interface hc hi)
    · exact hrecords.interface_ext hi' hi hname ▸ h

theorem Placed.ne_nil (h : Placed r units before b) : b.2 ≠ [] := by
  cases h with
  | cls => simp
  | iface hi hemit hparents =>
    obtain ⟨e, he, htells⟩ := hrecords.interface? hi
    obtain ⟨start, constants, rfl, -⟩ := Interface.sections_cases hemit he htells hparents
    simp

/-- Only constants may read too early. -/
theorem Placed.reads_cases (h : Placed r units before b) :
    ∀ s ∈ b.2, ∀ q ∈ sectionReads s, (∃ d ∈ before, Belongs q d) ∨ ConstantReads r units b.1 q := by
  cases h with
  | @cls c n hc hemit hparent hinterfaces =>
    obtain ⟨e, he, htells⟩ := hrecords.class? hc
    intro s hs q hq
    cases List.mem_singleton.1 hs
    exact (Class.reads_cases hemit he htells hparent hinterfaces hq).imp_right fun hk => .inl ⟨c, hc, rfl, hk⟩
  | @iface i ns hi hemit hparents =>
    obtain ⟨e, he, htells⟩ := hrecords.interface? hi
    obtain ⟨start, constants, rfl, hstart, hreads⟩ := Interface.sections_cases hemit he htells hparents
    intro s hs q hq
    rcases List.mem_cons.1 hs with rfl | hs
    · exact .inl (hstart q hq)
    · exact .inr (.inr ⟨i, hi, rfl, (hreads q).1 ⟨s, hs, hq⟩⟩)

/-- A declaration is in order if its constants are. -/
theorem Placed.inOrder_iff (h : Placed r units before b) :
    EachBehind (fun inner s => InOrder (before ++ inner.map (·.1)) s.2) (b.2.map (b.1, ·)) ↔
      ConstantsInOrder r units before b.1 := by
  cases h with
  | @cls c n hc hemit hparent hinterfaces =>
    obtain ⟨e, he, htells⟩ := hrecords.class? hc
    rw [constantsInOrder_class hrecords hc, List.map_singleton, EachBehind.cons, List.map_nil, List.append_nil,
      and_iff_left EachBehind.nil]
    constructor
    · exact fun h k hk q hq => h q ((Class.mem_reads_iff hemit he).2 (.inr (.inr ⟨k, hk, hq⟩)))
    · intro h q hq
      rcases Class.reads_cases hemit he htells hparent hinterfaces hq with hd | ⟨k, hk, hreads⟩
      · exact hd
      · exact h k hk q hreads
  | @iface i ns hi hemit hparents =>
    obtain ⟨e, he, htells⟩ := hrecords.interface? hi
    obtain ⟨start, constants, rfl, hstart, hreads⟩ := Interface.sections_cases hemit he htells hparents
    rw [constantsInOrder_interface hrecords hi, List.map_cons, EachBehind.cons, List.map_nil, List.append_nil,
      and_iff_right hstart, EachBehind.map]
    -- The statements before one for a constant are all of this interface, and the first is always there.
    have hnames (inner : List Node) (d : String) :
        d ∈ before ++ ((i.qualifiedName, start) :: inner.map (i.qualifiedName, ·)).map (·.1) ↔
          d ∈ before ++ [i.qualifiedName] := by
      simp only [List.map_cons, List.map_map, List.mem_append, List.mem_cons, List.mem_map, Function.comp_apply,
        List.not_mem_nil, or_false]
      grind
    rw [EachBehind.forall_mem (R := InOrder (before ++ [i.qualifiedName])) fun inner s _ _ => by
      simp only [InOrder, hnames]]
    constructor
    · intro h k hk q hq
      obtain ⟨s, hs, hq⟩ := (hreads q).2 ⟨k, hk, hq⟩
      exact h s hs q hq
    · intro h s hs q hq
      obtain ⟨k, hk, hq⟩ := (hreads q).1 ⟨s, hs, hq⟩
      exact h k hk q hq

end Blocks

/-- Every block gives a section, so the sections show the names of the blocks. -/
theorem mem_sectionNames {bs : List (String × List Node)} (h : ∀ b ∈ bs, b.2 ≠ []) {d : String} :
    d ∈ (bs.flatMap fun b => b.2.map (b.1, ·)).map (·.1) ↔ d ∈ bs.map (·.1) := by
  simp only [List.map_flatMap, List.map_map, List.mem_flatMap, List.mem_map, Function.comp_apply]
  constructor
  · rintro ⟨b, hb, -, -, rfl⟩
    exact ⟨b, hb, rfl⟩
  · rintro ⟨b, hb, rfl⟩
    obtain ⟨s, hs⟩ := List.exists_mem_of_ne_nil _ (h b hb)
    exact ⟨b, hb, s, hs, rfl⟩

section Sections

variable {o : Options} {r : Registry} {units : List SourceFile} {entry : String} {p : Parts}
  (hrecords : r.Records (units.flatMap (·.classes)) (units.flatMap (·.interfaces)))
  (h : Compile.parts r o units entry = .ok p)

include hrecords h

/-- A property of sections that speaks of the names before them, block by block. -/
theorem eachBehind_sections {P : List String → String × Node → Prop}
    (hP : ∀ {before before' : List String}, (∀ d, d ∈ before ↔ d ∈ before') → ∀ s, P before s ↔ P before' s) :
    EachBehind (fun before s => P (before.map (·.1)) s) p.declarationSections ↔
      EachBehind (fun before b => EachBehind (fun inner s => P (before.map (·.1) ++ inner.map (·.1)) s)
        (b.2.map (b.1, ·))) p.blocks := by
  have hplaced := blocks_placed h hrecords.nodup
  have hne : ∀ b ∈ p.blocks, b.2 ≠ [] := by
    intro b hb
    obtain ⟨before, behind, hsplit⟩ := List.append_of_mem hb
    exact (hplaced before b behind hsplit).ne_nil hrecords
  refine EachBehind.flatMap.trans (EachBehind.congr fun before b behind hsplit => ?_)
  refine EachBehind.congr fun inner s _ _ => hP (fun d => ?_) s
  have hbefore : ∀ b ∈ before, b.2 ≠ [] := fun b hb => hne b (by simp [hsplit, hb])
  simp only [List.map_append, List.mem_append, mem_sectionNames hbefore]

/-- Parents and tables of constants are declared before they are read. -/
theorem sections_cases : EachBehind (fun before s => ∀ q ∈ sectionReads s.2,
    (∃ d ∈ before.map (·.1), Belongs q d) ∨ ConstantReads r units s.1 q) p.declarationSections := by
  refine (eachBehind_sections hrecords h (P := fun before s => ∀ q ∈ sectionReads s.2,
    (∃ d ∈ before, Belongs q d) ∨ ConstantReads r units s.1 q) fun hmem s => by simp only [hmem]).2 ?_
  intro before b behind hsplit
  refine EachBehind.map.2 fun inner s innerBehind hinner q hq => ?_
  have hplaced := blocks_placed h hrecords.nodup before b behind hsplit
  refine (hplaced.reads_cases hrecords s (by simp [hinner]) q hq).imp_left ?_
  exact fun ⟨d, hd, hbelongs⟩ => ⟨d, List.mem_append_left _ hd, hbelongs⟩

theorem loadsInOrder_iff_blocks : LoadsInOrder p.declarationSections ↔
    EachBehind (fun before b => ConstantsInOrder r units (before.map (·.1)) b.1) p.blocks := by
  refine (eachBehind_sections hrecords h (P := fun before s => InOrder before s.2)
    fun hmem s => by simp only [InOrder, hmem]).trans ?_
  refine EachBehind.congr fun before b behind hsplit => ?_
  exact (blocks_placed h hrecords.nodup before b behind hsplit).inOrder_iff hrecords

end Sections

/-- In a program that compiles, the parent of a class and the tables of constants that a declaration takes
over are declared before they are read. All else that is read at load time is read by constants, and their
values refer to it. So each path that is read belongs to an earlier declaration exactly if the constants of
each declaration read only what is declared before it. -/
theorem loadsInOrder_iff {files : FileSystem} {options : Options} {entry : Path} {program : Program}
    (h : compile files options entry = .ok program) :
    ∃ st : Stages, st.Reached files options entry ∧ st.program = program ∧
      (∃ root boxed texts call, (st.parts.declarationSections.mapM fun s => (s.2.print : Result String)) = .ok texts ∧
        program.text = "\n\n".intercalate (preludeSection :: root :: boxed :: (texts ++ [call])) ++ "\n") ∧
      EachBehind (fun before s => ∀ q ∈ sectionReads s.2, (∃ d ∈ before.map (·.1), Belongs q d) ∨
        ConstantReads st.registry st.units s.1 q) st.parts.declarationSections ∧
      (∀ ctx k q, Constant.Reads ctx k q → ∃ path ∈ k.value.references ctx.constantsOwner, path <+: q) ∧
      (LoadsInOrder st.parts.declarationSections ↔
        EachBehind (ConstantsInOrder st.registry st.units) program.declarations) := by
  obtain ⟨st, hreached, rfl⟩ := compile_eq_ok_iff.1 h
  obtain ⟨-, hdeclarations, root, boxed, texts, -, call, htexts, -, -, htext⟩ := assemble_eq_ok hreached.assembled
  refine ⟨st, hreached, rfl, ⟨root, boxed, texts, call, htexts, htext⟩,
    sections_cases hreached.records hreached.made, fun _ _ _ hq => hq.refers, ?_⟩
  rw [hdeclarations, EachBehind.map]
  exact loadsInOrder_iff_blocks hreached.records hreached.made

/-- The constant of a class reads that of its parent. -/
def inheritedConstant : FileSystem where
  entries := [(["main"], .text ("interface Script \x7b \x7d class Base \x7b const Y = 1; \x7d " ++
    "class Main extends Base implements Script \x7b const X = Base::Y; function run() \x7b \x7d \x7d"))]

theorem inheritedConstant_inOrder : ∃ st : Stages,
    st.Reached inheritedConstant { scriptInterface := "Script" } ⟨"/main"⟩ ∧
    compile inheritedConstant { scriptInterface := "Script" } ⟨"/main"⟩ = .ok st.program ∧
    st.program.declarations = ["Script", "Base", "Main"] ∧ LoadsInOrder st.parts.declarationSections ∧
    EachBehind (ConstantsInOrder st.registry st.units) st.program.declarations := by
  obtain ⟨st, hreached, hcompile, hdeclarations, hload⟩ := Stages.exists_reached 3 inheritedConstant
    { scriptInterface := "Script" } ⟨"/main"⟩ rfl (toList_append_eq String.toList_ofList String.toList_ofList)
    (P := fun st => st.program.declarations = ["Script", "Base", "Main"] ∧
      LoadsInOrder st.parts.declarationSections) (by decide +kernel)
  obtain ⟨st', hreached', -, -, -, -, hiff⟩ := loadsInOrder_iff hcompile
  cases hreached.unique hreached'
  exact ⟨st, hreached, hcompile, hdeclarations, hload, hiff.1 hload⟩

/-- The constant of a class reads that of a class which is declared behind it. -/
def laterConstant : FileSystem where
  entries := [(["main"], .text ("interface Script \x7b \x7d " ++
    "class Main implements Script \x7b const X = Other::Y; function run() \x7b \x7d \x7d " ++
    "class Other \x7b const Y = 1; \x7d"))]

theorem laterConstant_tooEarly : ∃ st : Stages,
    st.Reached laterConstant { scriptInterface := "Script" } ⟨"/main"⟩ ∧
    compile laterConstant { scriptInterface := "Script" } ⟨"/main"⟩ = .ok st.program ∧
    st.program.declarations = ["Script", "Main", "Other"] ∧ ¬ LoadsInOrder st.parts.declarationSections :=
  Stages.exists_reached 3 laterConstant { scriptInterface := "Script" } ⟨"/main"⟩ rfl
    (toList_append_eq (toList_append_eq String.toList_ofList String.toList_ofList) String.toList_ofList)
    (P := fun st => st.program.declarations = ["Script", "Main", "Other"] ∧
      ¬ LoadsInOrder st.parts.declarationSections) (by decide +kernel)

end Program

end ClassScript
