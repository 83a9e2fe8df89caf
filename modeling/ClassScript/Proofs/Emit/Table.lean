import ClassScript.Proofs.Annotate.Access
import ClassScript.Proofs.Emit.Section
/-!
# Constants and the emitted tables

The code for a class or interface says which tables of constants it copies and which keys it adds. It is
read off the emitted nodes here and agrees with `Registry.InTable` (`Class.emit_builds`,
`Interface.emit_builds`), so the question whether a constant exists can be compared with the tables of the
program (`hasConstant_agrees_iff`).
-/

namespace ClassScript

open Emit Script

/-! ## Reading the code for a table -/

/-- What the code for a table does: where the object with the table is stored, by which paths tables are
copied into it, and which keys are added to it. -/
structure TableCode where
  path : List String
  copied : List (List String)
  keys : List String

namespace TableCode

/-- The key that a statement sets in a table. -/
def setKey? (isTable : Node → Bool) : Node → Option String
  | .statement (.assign (.property t k) _) => if isTable t then k.keyName? else none
  | _ => none

def isVariable (name : String) : Node → Bool
  | .identifier x => x == name
  | _ => false

/-- A property of the parameter of a function is one of the argument. -/
def applied (param : String) (arg : Node) : Node → Node
  | .property (.identifier x) k => if x = param then .property arg k else .property (.identifier x) k
  | n => n

/-- Whether an object has a field with a variable as its value. -/
def exports (field name : String) : Node → Bool
  | .ret (some (.object fields)) => fields.any fun f => f.key == field && isVariable name f.value
  | _ => false

/-- The code for the table of a class, which is a variable of the function that makes the class. -/
def ofClass? : Node → Option TableCode
  | .statement (.assign target (.call (.function [.identifier param] (.block
      (.declare table (some (.call copy tables)) :: stmts))) [parent])) => do
    let path ← target.rootPath?
    if isVariable copyName copy && stmts.getLast?.any (exports constantsKey table) then
      some ⟨path, tables.flatMap fun t => (applied param parent t).loads, stmts.filterMap (setKey? (isVariable table))⟩
    else none
  | _ => none

/-- The code for the table of an interface, which is a field of the object for the interface. -/
def ofInterface? : List Node → Option TableCode
  | .statement (.assign target (.object [⟨key, .call copy tables⟩])) :: stmts => do
    let path ← target.rootPath?
    if isVariable copyName copy && key == constantsKey then
      some ⟨path, tables.flatMap Node.loads,
        stmts.filterMap (setKey? fun t => t.rootPath? == some (path ++ [constantsKey]))⟩
    else none
  | _ => none

/-- The code builds the table of a declaration: it copies the tables that the declaration takes over and
adds the constants that it declares. -/
structure Builds (code : TableCode) (r : Registry) (n : String) : Prop where
  path : code.path = Name.partsOf n
  copied : code.copied = (r.tableSources n).map fun m => Name.partsOf m ++ [constantsKey]
  keys : ∀ k, k ∈ code.keys ↔ r.declaresConstant n k = true

end TableCode

/-! ## The emitted code -/

namespace Emit

/-- The statements that add constants set their names. -/
theorem setKeys_eq {ctx : Context} {table : Node} {isTable : Node → Bool} (ht : isTable table = true)
    {ks : List Constant} {stmts : List Node} (h : List.Forall₂ (Initialises ctx table) ks stmts) :
    stmts.filterMap (TableCode.setKey? isTable) = ks.map (·.name) := by
  induction h with
  | nil => rfl
  | @cons k _ _ _ hk _ ih =>
    obtain ⟨v, -, rfl⟩ := hk
    have hkey : TableCode.setKey? isTable (constantStatement table k.name v) = some k.name := by
      simp [TableCode.setKey?, constantStatement, ht, Node.keyName?_keyNode]
    rw [List.filterMap_cons, hkey, ih, List.map_cons]

/-- A path from the root is no property of a parameter. -/
theorem applied_tableNode {param : String} (hparam : rootName ≠ param) (arg : Node) (q : String) :
    TableCode.applied param arg (tableNode q) = tableNode q := by
  rw [tableNode, pathNode_concat]
  cases hparts : pathNode rootName (Name.partsOf q) with
  | identifier x =>
    have hroot : x = rootName := by
      have hpath := rootPath?_pathNode (Name.partsOf q)
      rw [hparts, Node.rootPath?] at hpath
      split at hpath
      · assumption
      · cases hpath
    rw [TableCode.applied, if_neg (hroot ▸ hparam)]
  | _ => rfl

/-- The table of the parent is read, and nothing for a class without one. -/
theorem loads_parentTable (c : Class) : (Node.property c.parentNode (keyNode constantsKey)).loads =
    c.parent.toList.map fun p => Name.partsOf p.joined ++ [constantsKey] := by
  unfold Class.parentNode
  cases c.parent with
  | none =>
    have hbase : (Node.identifier baseClass).rootPath? = none := by decide
    rw [Node.loads_keyed hbase, Node.loads_identifier (by decide)]
    rfl
  | some p =>
    rw [← pathNode_concat, Node.loads_path (rootPath?_pathNode _)]
    rfl

/-- The tables that the function of a class copies, applied to the parent. -/
theorem loads_classTable (c : Class) (interfaces : List String) :
    ((.property (.identifier "parent") (keyNode constantsKey) :: interfaces.map tableNode).flatMap fun t =>
      (TableCode.applied "parent" c.parentNode t).loads) =
    (c.parent.toList.map Name.joined ++ interfaces).map fun m => Name.partsOf m ++ [constantsKey] := by
  have hparent : TableCode.applied "parent" c.parentNode (.property (.identifier "parent") (keyNode constantsKey)) =
      .property c.parentNode (keyNode constantsKey) := by simp [TableCode.applied]
  have hinterfaces : ((interfaces.map tableNode).flatMap fun t => (TableCode.applied "parent" c.parentNode t).loads) =
      interfaces.map fun m => Name.partsOf m ++ [constantsKey] := by
    rw [← loads_tableNodes, List.flatMap_map, List.flatMap_map]
    simp only [applied_tableNode (show rootName ≠ "parent" by decide)]
  rw [List.flatMap_cons, hparent, loads_parentTable, hinterfaces, List.map_append, List.map_map]
  rfl

end Emit

/-- The code for the table of a class, as it is read off what is emitted. -/
theorem Class.ofClass?_section {ctx : Context} {c : Class} (interfaces : List String)
    {constants : List Node} (extend make : Node)
    (h : List.Forall₂ (Initialises ctx (.identifier constantsName)) (constantsOf c.members) constants) :
    TableCode.ofClass? (.statement (.assign (pathNode rootName (Name.partsOf c.qualifiedName))
        (.call (classFunction interfaces constants extend make) [c.parentNode]))) =
      some ⟨Name.partsOf c.qualifiedName,
        (c.parent.toList.map Name.joined ++ interfaces).map fun m => Name.partsOf m ++ [constantsKey],
        constantNames c.members⟩ := by
  have hkeys : (constants ++ [.declare "extend" (some extend), classObject make]).filterMap
      (TableCode.setKey? (TableCode.isVariable constantsName)) = constantNames c.members := by
    rw [List.filterMap_append, setKeys_eq (by decide) h]
    exact List.append_nil _
  have hexports : (constants ++ [.declare "extend" (some extend), classObject make]).getLast?.any
      (TableCode.exports constantsKey constantsName) = true := by
    simp [TableCode.exports, classObject, TableCode.isVariable]
  have hcopy : TableCode.isVariable copyName (.identifier copyName) = true := by decide
  simp only [TableCode.ofClass?, classFunction, classTable, copyNode, List.cons_append, rootPath?_pathNode,
    hkeys, hexports, hcopy, loads_classTable]
  rfl

theorem Class.emit_builds {r : Registry} {c : Class} {e : ClassEntry} {n : Node} (h : c.emit r = .ok n)
    (he : r.class? c.qualifiedName = some e) (htells : e.Tells c) :
    ∃ code, TableCode.ofClass? n = some code ∧ code.Builds r c.qualifiedName := by
  obtain ⟨-, e', constants, extend, make, he', hconstants, -, -, rfl⟩ := Class.emit_eq_section h
  cases he.symm.trans he'
  refine ⟨_, Class.ofClass?_section _ extend make hconstants, rfl, ?_, fun k => ?_⟩
  · rw [Registry.tableSources_class he, htells.parent, Option.toList_map]
  · rw [Registry.declaresConstant, he]
    exact (htells.constants k).symm

/-- The code for the table of an interface, as it is read off what is emitted. -/
theorem Interface.ofInterface?_sections {ctx : Context} {i : Interface} {constants : List Node}
    (h : List.Forall₂ (Initialises ctx (tableNode i.qualifiedName)) (constantsOf i.members) constants) :
    TableCode.ofInterface? (.statement (.assign (pathNode rootName (Name.partsOf i.qualifiedName))
        (.object [⟨constantsKey, copyNode (i.parents.map fun p => tableNode p.joined)⟩])) :: constants) =
      some ⟨Name.partsOf i.qualifiedName,
        (i.parents.map Name.joined).map fun m => Name.partsOf m ++ [constantsKey],
        constantNames i.members⟩ := by
  have hkeys : constants.filterMap (TableCode.setKey? fun t =>
      t.rootPath? == some (Name.partsOf i.qualifiedName ++ [constantsKey])) = constantNames i.members :=
    setKeys_eq (by simp [rootPath?_tableNode]) h
  have hcopy : TableCode.isVariable copyName (.identifier copyName) = true := by decide
  have hkey : (constantsKey == constantsKey) = true := by decide
  simp only [TableCode.ofInterface?, copyNode, rootPath?_pathNode, hcopy, hkey, loads_parentTables]
  exact congrArg (fun keys => some (TableCode.mk _ _ keys)) hkeys

theorem Interface.emit_builds {r : Registry} (hapart : r.Apart) {i : Interface} {e : InterfaceEntry}
    {ns : List Node} (h : i.emit r = .ok ns)
    (he : r.interface? i.qualifiedName = some e) (htells : e.Tells i) :
    ∃ code, TableCode.ofInterface? ns = some code ∧ code.Builds r i.qualifiedName := by
  obtain ⟨-, constants, hconstants, rfl⟩ := Interface.emit_eq_sections h
  have hclass := hapart.class?_eq_none he
  refine ⟨_, Interface.ofInterface?_sections hconstants, rfl, ?_, fun k => ?_⟩
  · rw [Registry.tableSources_interface hclass he, htells.parents]
  · rw [Registry.declaresConstant, hclass, he]
    exact (htells.constants k).symm

/-! ## Agreement -/

open Registry in
/-- Files are entered into a registry, access is marked, and every declaration can be emitted. Then the code
for each table copies and adds what `InTable` says. Whatever is in a table is a constant for the registry,
and conversely exactly if a class that stands among the interfaces of another adds nothing to its table. -/
theorem hasConstant_agrees_iff {fs : List (SourceFile × Bool)} {declared : List (List String)}
    {units : List SourceFile} {r r' : Registry}
    (hadded : (fs.mapM fun x => addFile x.1 x.2).run.run {} = (.ok declared, r))
    (hmarked : ((fs.map (·.1)).mapM SourceFile.markAccess).run.run r = (.ok units, r'))
    (hclasses : ∀ c ∈ units.flatMap (·.classes), ∃ n, c.emit r' = .ok n)
    (hinterfaces : ∀ i ∈ units.flatMap (·.interfaces), ∃ ns, i.emit r' = .ok ns) :
    (∀ c ∈ units.flatMap (·.classes), ∃ n code, c.emit r' = .ok n ∧
      TableCode.ofClass? n = some code ∧ code.Builds r' c.qualifiedName) ∧
    (∀ i ∈ units.flatMap (·.interfaces), ∃ ns code, i.emit r' = .ok ns ∧
      TableCode.ofInterface? ns = some code ∧ code.Builds r' i.qualifiedName) ∧
    (∀ x k, InTable r' x k → r'.hasConstant x k = true) ∧
    ((∀ x k, r'.hasConstant x k = true ↔ InTable r' x k) ↔
      ∀ x c m k, r'.class? x = some c → m ∈ c.interfaces → (r'.class? m).isSome = true →
        InTable r' m k → InTable r' x k) := by
  have hrecords : Records r' (units.flatMap (·.classes)) (units.flatMap (·.interfaces)) := by
    refine SourceFile.mapM_markAccess_records hmarked ?_
    rw [List.flatMap_map, List.flatMap_map]
    exact .ofFiles hadded
  have hapart := apart_of_nodup hrecords.nodup
  refine ⟨fun c hc => ?_, fun i hi => ?_, fun _ _ => InTable.hasConstant hapart, hasConstant_iff_inTable hapart⟩
  · obtain ⟨n, hn⟩ := hclasses c hc
    obtain ⟨e, he, htells⟩ := hrecords.class? hc
    obtain ⟨code, hcode, hbuilds⟩ := Class.emit_builds hn he htells
    exact ⟨n, code, hn, hcode, hbuilds⟩
  · obtain ⟨ns, hns⟩ := hinterfaces i hi
    obtain ⟨e, he, htells⟩ := hrecords.interface? hi
    obtain ⟨code, hcode, hbuilds⟩ := Interface.emit_builds hapart hns he htells
    exact ⟨ns, code, hns, hcode, hbuilds⟩

/-! An interface and two classes, the second of which lists something as an interface. -/

def shapeConstant (name : String) : Member :=
  .const ⟨name, .bool .unknown true, {}, some .pub, .unknown⟩

def shapeClass (name : String) (interfaces : List Name) (constant : String) : Class where
  name
  parent := none
  interfaces
  members := [shapeConstant constant]
  isAbstract := false
  isFinal := false
  pos := .unknown
  qualified := some name
  scriptApis := none

def shapesFile (listed : Name) : SourceFile where
  path := "shapes"
  stmts :=
    [.interfaceDecl ⟨"Shape", [], [shapeConstant "SIDES"], .unknown, some "Shape"⟩,
    .classDecl (shapeClass "Box" [] "SIZE"), .classDecl (shapeClass "Crate" [listed] "LID")]

def shapesRegistry (listed : String) : Registry where
  classes :=
    [{ name := "Box", parent := none, interfaces := [], constants := [("SIZE", .pub)], isInternal := false },
    { name := "Crate", parent := none, interfaces := [listed], constants := [("LID", .pub)], isInternal := false }]
  interfaces := [{ name := "Shape", parents := [], constants := [("SIDES", .pub)], isInternal := false }]

theorem shapesFile_added (listed : Name) :
    ([(shapesFile listed, false)].mapM fun x => Registry.addFile x.1 x.2).run.run {} =
      (.ok [["Shape", "Box", "Crate"]], shapesRegistry listed.joined) := rfl

theorem shapesFile_marked (listed : Name) (r : Registry) :
    (([(shapesFile listed, false)].map (·.1)).mapM SourceFile.markAccess).run.run r = (.ok [shapesFile listed], r) := by
  with_unfolding_all rfl

theorem exists_ok_of_all {α β ε : Type} {f : α → Except ε β} {as : List α}
    (h : as.all (fun a => (f a).isOk) = true) : ∀ a ∈ as, ∃ b, f a = .ok b := by
  intro a ha
  have hok := List.all_eq_true.1 h a ha
  cases hb : f a with
  | ok b => exact ⟨b, rfl⟩
  | error e =>
    rw [hb] at hok
    cases hok

/-- A class that lists an interface has the constants of the interface. -/
theorem shapesFile_agrees :
    let r := shapesRegistry "Shape"
    (∀ x k, r.hasConstant x k = true ↔ Registry.InTable r x k) ∧ Registry.InTable r "Crate" "SIDES" := by
  intro r
  have hclasses : ([shapesFile (.global "Shape")].flatMap (·.classes)).all (fun c => (c.emit r).isOk) = true := by
    decide +kernel
  have hinterfaces : ([shapesFile (.global "Shape")].flatMap (·.interfaces)).all (fun i => (i.emit r).isOk) = true := by
    decide +kernel
  have hagree := (hasConstant_agrees_iff (shapesFile_added (.global "Shape")) (shapesFile_marked _ r)
    (exists_ok_of_all hclasses) (exists_ok_of_all hinterfaces)).2.2.2.2 ?_
  · exact ⟨hagree, (hagree _ _).1 (by decide +kernel)⟩
  · -- only a name that is no class is listed
    intro x c m k hx hm hclass
    have hlisted : ∀ c ∈ r.classes, ∀ m ∈ c.interfaces, r.class? m = none := by decide
    rw [hlisted c (Registry.class?_mem hx) m hm] at hclass
    cases hclass

/-- The constants of a class that is listed as an interface are known, but in no table. -/
theorem shapesFile_disagrees :
    let r := shapesRegistry "Box"
    let fs := [(shapesFile (.global "Box"), false)]
    (fs.mapM fun x => Registry.addFile x.1 x.2).run.run {} = (.ok [["Shape", "Box", "Crate"]], r) ∧
    ((fs.map (·.1)).mapM SourceFile.markAccess).run.run r = (.ok (fs.map (·.1)), r) ∧
    (∀ c ∈ (fs.map (·.1)).flatMap (·.classes), ∃ n, c.emit r = .ok n) ∧
    (∀ i ∈ (fs.map (·.1)).flatMap (·.interfaces), ∃ ns, i.emit r = .ok ns) ∧
    r.interfaceOrder.isOk = true ∧ r.classOrder.isOk = true ∧
    r.hasConstant "Crate" "SIZE" = true ∧ ¬ Registry.InTable r "Crate" "SIZE" := by
  intro r fs
  refine ⟨shapesFile_added _, shapesFile_marked _ r, exists_ok_of_all (by decide +kernel),
    exists_ok_of_all (by decide +kernel), by decide +kernel, by decide +kernel, by decide +kernel, ?_⟩
  have hdeclares : r.declaresConstant "Crate" "SIZE" = false := by decide
  have hsources : r.tableSources "Crate" = [] := by decide +kernel
  rintro (hown | ⟨hm, -⟩)
  · cases hown.symm.trans hdeclares
  · rw [hsources] at hm
    cases hm

end ClassScript
