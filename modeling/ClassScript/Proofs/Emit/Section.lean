import ClassScript.Emit.Interface
import ClassScript.Proofs.Emit.Load
import ClassScript.Proofs.Registry.Constants
import ClassScript.Proofs.Registry.Records
/-!
# The sections of a program

A class is declared by one statement, an interface by one for itself and one for each of its constants.
What these statements look like is said here once (`Class.emit_eq_section`, `Interface.emit_eq_sections`):
where the table of constants comes from, which constants are added to it, and that all the rest of a
class is functions.
-/

namespace ClassScript

open Emit Script

namespace Emit

/-- The table of constants of a declaration. -/
def tableNode (q : String) : Node := pathNode rootName (Name.partsOf q ++ [constantsKey])

theorem constantsPath_eq (q : String) : constantsPath q = .ok (tableNode q) := by
  have hclass : classPath q = .ok (pathNode rootName (Name.partsOf q)) := classPath_eq_ok.2 rfl
  rw [constantsPath, hclass]
  exact member_eq_ok.2 ⟨isStatement_pathNode _ _, pathNode_concat _ _ _⟩

theorem rootPath?_tableNode (q : String) : (tableNode q).rootPath? = some (Name.partsOf q ++ [constantsKey]) :=
  rootPath?_pathNode _

theorem loads_tableNodes (qs : List String) :
    (qs.map tableNode).flatMap Node.loads = qs.map fun q => Name.partsOf q ++ [constantsKey] := by
  induction qs with
  | nil => rfl
  | cons q qs ih =>
    rw [List.map_cons, List.flatMap_cons, ih, Node.loads_path (rootPath?_tableNode q)]
    rfl

theorem loads_parentTables (ps : List Name) : (ps.map fun p => tableNode p.joined).flatMap Node.loads =
    (ps.map Name.joined).map fun q => Name.partsOf q ++ [constantsKey] := by
  rw [← loads_tableNodes, List.map_map]
  rfl

/-- The copy of some tables. -/
def copyNode (tables : List Node) : Node := .call (.identifier copyName) tables

/-- The statement that adds a constant to a table. -/
def constantStatement (table : Node) (name : String) (value : Node) : Node :=
  .statement (.assign (.property table (keyNode name)) value)

/-- The statement that adds a constant to a table, with the value that its expression is emitted as. -/
def Initialises (ctx : Context) (table : Node) (k : Constant) (s : Node) : Prop :=
  ∃ v, (emitExpr ctx k.value).run none = .ok (v, none) ∧ s = constantStatement table k.name v

variable (ctx : Context)

/-! ## Instances -/

theorem atLoad_emitExpr (e : Expr) :
    AtLoad (emitExpr ctx e) (LoadsWithin (e.references ctx.constantsOwner)) :=
  emitExpr_atLoad ctx e fun _ hp => hp

theorem atLoad_resolvedVisibility (v : Option Visibility) (what : String) :
    AtLoad (resolvedVisibility v what) fun _ => True := by
  unfold resolvedVisibility
  split
  · exact .pure trivial
  · exact .fail _

theorem atLoad_emitFunction (m : Method) (body : List Stmt) :
    AtLoad (emitFunction ctx m body) fun _ => True :=
  .located ((atLoad_functionOf _ _).imp fun _ _ => trivial) m.pos

theorem atLoad_emitMethod (cls : String) (m : Method) : AtLoad (emitMethod ctx cls m) fun _ => True := by
  obtain heq | heq | ⟨body, -, heq⟩ := emitMethod_cases ctx cls m <;> rw [heq]
  · exact .failAt _ _
  · exact .failAt _ _
  · exact (atLoad_resolvedVisibility _ _).bind fun _ _ => (atLoad_emitFunction ctx m body).bind fun _ _ =>
      .built fun _ _ => trivial

theorem atLoad_emitProperty (cls : String) (p : Property) : AtLoad (emitProperty ctx cls p) fun _ => True := by
  refine (atLoad_resolvedVisibility _ _).bind fun v _ => ?_
  have hstatement (value : Node) : AtLoad (liftM (memberStatement v p.name value)) fun _ => True :=
    .built fun _ _ => trivial
  split
  · exact (Keeps.located (atLoad_emitExpr ctx _) p.pos).bind fun value _ => hstatement value
  · exact hstatement null

theorem atLoad_emitInstanceMember (c : Class) (m : Member) :
    AtLoad (emitInstanceMember ctx c m) fun _ => True := by
  cases m with
  | method m => exact .ite (.pure trivial) ((atLoad_emitMethod ctx _ m).bind fun _ _ => .pure trivial)
  | property p => exact (atLoad_emitProperty ctx _ p).bind fun _ _ => .pure trivial
  | const _ => exact .pure trivial
  | traitUse _ => exact .failAt _ _

theorem atLoad_emitConstructor (c : Class) : AtLoad (emitConstructor ctx c) fun _ => True := by
  unfold emitConstructor
  split
  · exact atLoad_emitFunction ctx _ _
  · exact .built fun _ _ => trivial

theorem atLoad_emitInstance (c : Class) : AtLoad (emitInstance ctx c) fun _ => True := by
  have hbuilt {α : Type} (b : Built α) : AtLoad (liftM b) fun _ => True := .built fun _ _ => trivial
  refine (hbuilt _).bind fun _ _ => ?_
  refine (Keeps.forall_mapM (R := fun _ => True) fun m _ => atLoad_emitInstanceMember ctx c m).bind fun _ _ => ?_
  refine (Keeps.result (Q := fun _ => True) fun _ _ => trivial).bind fun _ _ => (hbuilt _).bind fun _ _ => ?_
  refine (atLoad_emitConstructor ctx c).bind fun _ _ => (hbuilt _).bind fun _ _ => ?_
  exact (hbuilt _).bind fun _ _ => .pure trivial

/-! ## Classes -/

/-- The start of the table of a class: a copy of that of its parent and of those of its interfaces. -/
def classTable (interfaces : List String) : Node :=
  .declare constantsName (some (copyNode
    (.property (.identifier "parent") (keyNode constantsKey) :: interfaces.map tableNode)))

theorem mapM_constantsPath (is : List String) :
    (is.mapM fun i => constantsPath i : Result (List Node)) = .ok (is.map tableNode) := by
  induction is with
  | nil => rfl
  | cons i is ih =>
    rw [List.mapM_cons, constantsPath_eq, ih]
    rfl

theorem constantsTable_eq_ok {name : String} {n : Node} (h : constantsTable ctx name = .ok n) :
    ∃ e, ctx.registry.class? name = some e ∧ n = classTable (ctx.registry.tableInterfaces e) := by
  unfold constantsTable at h
  obtain ⟨o, ho, h⟩ := bind_eq_ok.1 h
  obtain ⟨parent, hparent, h⟩ := bind_eq_ok.1 h
  obtain ⟨interfaces, hinterfaces, h⟩ := bind_eq_ok.1 h
  obtain ⟨tables, htables, h⟩ := bind_eq_ok.1 h
  obtain ⟨copy, hcopy, h⟩ := bind_eq_ok.1 h
  obtain ⟨value, hvalue, h⟩ := bind_eq_ok.1 h
  obtain ⟨-, rfl⟩ := ident_eq_ok.1 (mapError_eq_ok.1 ho)
  obtain ⟨-, rfl⟩ := member_eq_ok.1 (mapError_eq_ok.1 hparent)
  obtain ⟨-, rfl⟩ := ident_eq_ok.1 (mapError_eq_ok.1 hcopy)
  obtain ⟨-, -, rfl⟩ := call_eq_ok.1 (mapError_eq_ok.1 hvalue)
  obtain ⟨-, -, rfl⟩ := declare_eq_ok.1 (mapError_eq_ok.1 h)
  obtain ⟨e, he, hreach⟩ := bind_eq_ok.1 (mapError_eq_ok.1 hinterfaces)
  cases hreach
  rw [mapM_constantsPath] at htables
  cases htables
  unfold Registry.requireClass at he
  split at he
  · next e' he' =>
    cases he
    refine ⟨e, he', ?_⟩
    rw [Registry.tableInterfaces, ← Registry.collect_eq]
    rfl
  · cases he

theorem atLoad_emitClassConstants (ms : List Member) : AtLoad (emitClassConstants ctx ms)
    (List.Forall₂ (Initialises ctx (.identifier constantsName)) (constantsOf ms)) := by
  induction ms with
  | nil => exact .pure .nil
  | cons m ms ih =>
    cases m with
    | const k =>
      have hconstant : AtLoad (emitConstant ctx k) (Initialises ctx (.identifier constantsName) k) := by
        refine (Keeps.located (atLoad_emitExpr ctx k.value).exact k.pos).bind fun v hv => ?_
        refine (Keeps.built (makes_ident _)).bind fun o ho => (Keeps.built fun _ ht => ht).bind fun t ht =>
          (Keeps.built fun _ ha => ha).bind fun a ha => .built fun n hn => ⟨v, hv, ?_⟩
        subst ho
        obtain ⟨-, rfl⟩ := member_eq_ok.1 ht
        obtain ⟨-, -, rfl⟩ := assign_eq_ok.1 ha
        exact (statement_eq_ok.1 hn).2
      exact hconstant.bind fun _ hk => ih.bind fun _ hks => .pure (.cons hk hks)
    | _ => exact ih

/-- A node that is evaluated without reading anything. -/
def IsFunction (n : Node) : Prop := ∃ params body, n = .function params body

theorem makes_function_isFunction (params stmts : List Node) : Makes (function params stmts) IsFunction :=
  fun _ hn => ⟨_, _, (function_eq_ok.1 hn).2.2⟩

theorem makes_extendFunction_isFunction (stmts : List Node) : Makes (extendFunction stmts) IsFunction :=
  -- only the last of the actions counts, which makes the function
  .bind (.any _) fun _ _ => .bind (.any _) fun _ _ => .bind (.any _) fun _ _ => .bind (.any _) fun _ _ =>
    .bind (.any _) fun _ _ => .bind (.any _) fun _ _ => makes_function_isFunction _ _

theorem makes_factoryFunction_isFunction : Makes factoryFunction IsFunction :=
  .bind (.any _) fun _ _ => .bind (.any _) fun _ _ => .bind (.any _) fun _ _ => .bind (.any _) fun _ _ =>
    .bind (.any _) fun _ _ => .bind (.any _) fun _ _ => .bind (.any _) fun _ _ => .bind (.any _) fun _ _ =>
      .bind (.any _) fun _ _ => makes_function_isFunction _ _

/-- The object that stands for a class. -/
def classObject (make : Node) : Node := .ret (some (.object
  [⟨"__extend", .identifier "extend"⟩, ⟨constructorName, make⟩, ⟨constantsKey, .identifier constantsName⟩]))

theorem makes_moduleEnd_eq : Makes moduleEnd fun n => ∃ make, IsFunction make ∧ n = classObject make := by
  refine (makes_ident _).bind fun extend hextend => makes_factoryFunction_isFunction.bind fun make hmake => ?_
  refine (makes_ident _).bind fun table htable => .bind (fun _ ho => (object_eq_ok ho).2) fun o ho n hn => ?_
  subst hextend htable ho
  exact ⟨make, hmake, (ret_eq_ok.1 hn).2⟩

/-- The function of the parent that gives a class. -/
def classFunction (interfaces : List String) (constants : List Node) (extend make : Node) : Node :=
  .function [.identifier "parent"] (.block
    (classTable interfaces :: constants ++ [.declare "extend" (some extend), classObject make]))

theorem atLoad_emitModule (c : Class) : AtLoad (emitModule ctx c) fun n =>
    ∃ e constants extend make, ctx.registry.class? c.qualifiedName = some e ∧
      List.Forall₂ (Initialises ctx (.identifier constantsName)) (constantsOf c.members) constants ∧
      IsFunction extend ∧ IsFunction make ∧
      n = classFunction (ctx.registry.tableInterfaces e) constants extend make := by
  refine (atLoad_emitInstance ctx c).bind fun stmts _ => ?_
  refine (Keeps.result fun _ htable => constantsTable_eq_ok ctx htable).bind fun table htable => ?_
  refine (atLoad_emitClassConstants ctx c.members).bind fun constants hconstants => ?_
  refine (Keeps.built (makes_extendFunction_isFunction stmts)).bind fun extend hextend => ?_
  refine (Keeps.built fun _ hd => (declare_eq_ok.1 hd).2.2).bind fun declared hdeclared => ?_
  refine (Keeps.built (makes_ident _)).bind fun param hparam => ?_
  refine (Keeps.built makes_moduleEnd_eq).bind fun ending hending => .built fun n hn => ?_
  obtain ⟨e, he, rfl⟩ := htable
  obtain ⟨make, hmake, rfl⟩ := hending
  subst hparam hdeclared
  exact ⟨e, constants, extend, make, he, hconstants, hextend, hmake, (function_eq_ok.1 hn).2.2⟩

end Emit

/-- The object that a class extends: the base class, or a known class. -/
def Class.parentNode (c : Class) : Node :=
  match c.parent with
  | none => .identifier baseClass
  | some p => pathNode rootName (Name.partsOf p.joined)

theorem Class.parentPath_eq_ok {r : Registry} {c : Class} {n : Node} (h : c.parentPath r = .ok n) :
    n = c.parentNode ∧ ∀ p ∈ c.parent, (r.class? p.joined).isSome = true := by
  unfold parentPath at h
  unfold parentNode
  split at h
  · next hnone =>
    rw [hnone]
    exact ⟨(ident_eq_ok.1 (mapError_eq_ok.1 h)).2, nofun⟩
  · next p hp =>
    rw [hp]
    split at h
    · next hknown =>
      refine ⟨classPath_eq_ok.1 (mapError_eq_ok.1 h), ?_⟩
      simpa using hknown
    · cases h

/-- What is emitted for a class. -/
theorem Class.emit_eq_section {r : Registry} {c : Class} {n : Node} (h : c.emit r = .ok n) :
    (∀ p ∈ c.parent, (r.class? p.joined).isSome = true) ∧
    ∃ e constants extend make, r.class? c.qualifiedName = some e ∧
      List.Forall₂ (Initialises ⟨r, some c.qualifiedName⟩ (.identifier constantsName))
        (constantsOf c.members) constants ∧
      IsFunction extend ∧ IsFunction make ∧
      n = .statement (.assign (pathNode rootName (Name.partsOf c.qualifiedName))
        (.call (classFunction (r.tableInterfaces e) constants extend make) [c.parentNode])) := by
  obtain ⟨module, hmodule, h⟩ := bind_eq_ok.1 h
  obtain ⟨parent, hparent, h⟩ := bind_eq_ok.1 h
  obtain ⟨target, htarget, h⟩ := bind_eq_ok.1 h
  obtain ⟨value, hvalue, h⟩ := bind_eq_ok.1 h
  obtain ⟨assigned, hassigned, h⟩ := bind_eq_ok.1 h
  obtain ⟨-, e, constants, extend, make, he, hconstants, hextend, hmake, rfl⟩ :=
    ((atLoad_emitModule _ c).located c.pos).run_none hmodule
  obtain ⟨rfl, hknown⟩ := c.parentPath_eq_ok hparent
  obtain rfl := classPath_eq_ok.1 (mapError_eq_ok.1 htarget)
  obtain ⟨-, -, rfl⟩ := call_eq_ok.1 (mapError_eq_ok.1 hvalue)
  obtain ⟨-, -, rfl⟩ := assign_eq_ok.1 (mapError_eq_ok.1 hassigned)
  exact ⟨hknown, e, constants, extend, make, he, hconstants, hextend, hmake,
    (statement_eq_ok.1 (mapError_eq_ok.1 h)).2⟩

/-! ## Interfaces -/

namespace Emit

theorem interfaceTable_eq_ok {r : Registry} {i : Interface} {n : Node} (h : interfaceTable r i = .ok n) :
    (∀ p ∈ i.parents, (r.interface? p.joined).isSome = true) ∧
      n = copyNode (i.parents.map fun p => tableNode p.joined) := by
  obtain ⟨tables, htables, h⟩ := bind_eq_ok.1 h
  obtain ⟨copy, hcopy, h⟩ := bind_eq_ok.1 h
  obtain ⟨-, rfl⟩ := ident_eq_ok.1 (mapError_eq_ok.1 hcopy)
  obtain ⟨-, -, rfl⟩ := call_eq_ok.1 (mapError_eq_ok.1 h)
  clear h hcopy
  have hall : ∀ (ps : List Name) (tables : List Node), (ps.mapM fun p =>
      if (r.interface? p.joined).isSome then liftM (constantsPath p.joined)
      else Except.error ((Fault.unknownParentInterface i.qualifiedName p.joined).diagnostic.placed i.pos) :
        Result (List Node)) = .ok tables →
      (∀ p ∈ ps, (r.interface? p.joined).isSome = true) ∧ tables = ps.map fun p => tableNode p.joined := by
    intro ps
    induction ps with
    | nil =>
      rintro _ ⟨⟩
      exact ⟨nofun, rfl⟩
    | cons p ps ih =>
      intro tables h
      rw [List.mapM_cons] at h
      obtain ⟨t, ht, h⟩ := bind_eq_ok.1 h
      obtain ⟨ts, hts, h⟩ := bind_eq_ok.1 h
      cases h
      obtain ⟨hknown, rfl⟩ := ih ts hts
      split at ht
      · next hp =>
        rw [constantsPath_eq] at ht
        cases ht
        exact ⟨List.forall_mem_cons.2 ⟨hp, hknown⟩, rfl⟩
      · cases ht
  obtain ⟨hknown, rfl⟩ := hall i.parents tables htables
  exact ⟨hknown, rfl⟩

theorem atLoad_emitInterfaceMember (ctx : Context) (i : Interface) (m : Member) : AtLoad (emitInterfaceMember ctx i m)
    (List.Forall₂ (Initialises ctx (tableNode i.qualifiedName)) (constantsOf [m])) := by
  cases m with
  | const k =>
    refine (Keeps.located (atLoad_emitExpr ctx k.value).exact k.pos).bind fun v hv => ?_
    refine (Keeps.built fun _ ho => ho).bind fun o ho => (Keeps.built fun _ hk => hk).bind fun key hkey => ?_
    refine (Keeps.built fun _ ht => ht).bind fun t ht => (Keeps.built fun _ ha => ha).bind fun a ha => ?_
    refine (Keeps.built fun _ hs => hs).bind fun s hs => .pure (.cons ⟨v, hv, ?_⟩ .nil)
    rw [constantsPath_eq] at ho
    cases ho
    obtain ⟨hname, rfl⟩ := ident_eq_ok.1 hkey
    obtain ⟨-, -, -, rfl⟩ := propertyOf_eq_ok.1 ht
    obtain ⟨-, -, rfl⟩ := assign_eq_ok.1 ha
    obtain ⟨-, rfl⟩ := statement_eq_ok.1 hs
    simp [constantStatement, keyNode, hname]
  | method _ => exact .pure .nil
  | property p => exact .failAt _ _
  | traitUse _ => exact .failAt _ _

theorem atLoad_emitInterfaceMembers (ctx : Context) (i : Interface) (ms : List Member) :
    AtLoad (ms.mapM (emitInterfaceMember ctx i)) fun nss =>
      List.Forall₂ (Initialises ctx (tableNode i.qualifiedName)) (constantsOf ms) nss.flatten := by
  induction ms with
  | nil =>
    rw [List.mapM_nil]
    exact .pure .nil
  | cons m ms ih =>
    have hcons : constantsOf (m :: ms) = constantsOf [m] ++ constantsOf ms :=
      List.filterMap_append (l := [m])
    rw [List.mapM_cons, hcons]
    exact (atLoad_emitInterfaceMember ctx i m).bind fun _ hm => ih.bind fun _ hms =>
      .pure (List.rel_append hm hms)

end Emit

/-- What is emitted for an interface. -/
theorem Interface.emit_eq_sections {r : Registry} {i : Interface} {ns : List Node} (h : i.emit r = .ok ns) :
    (∀ p ∈ i.parents, (r.interface? p.joined).isSome = true) ∧
    ∃ constants, List.Forall₂ (Initialises ⟨r, none⟩ (tableNode i.qualifiedName))
        (constantsOf i.members) constants ∧
      ns = .statement (.assign (pathNode rootName (Name.partsOf i.qualifiedName))
        (.object [⟨constantsKey, copyNode (i.parents.map fun p => tableNode p.joined)⟩])) :: constants := by
  obtain ⟨table, htable, h⟩ := bind_eq_ok.1 h
  obtain ⟨target, htarget, h⟩ := bind_eq_ok.1 h
  obtain ⟨value, hvalue, h⟩ := bind_eq_ok.1 h
  obtain ⟨assigned, hassigned, h⟩ := bind_eq_ok.1 h
  obtain ⟨start, hstart, h⟩ := bind_eq_ok.1 h
  obtain ⟨members, hmembers, h⟩ := bind_eq_ok.1 h
  cases h
  obtain ⟨hknown, rfl⟩ := interfaceTable_eq_ok htable
  obtain rfl := classPath_eq_ok.1 (mapError_eq_ok.1 htarget)
  obtain ⟨-, rfl⟩ := object_eq_ok (mapError_eq_ok.1 hvalue)
  obtain ⟨-, -, rfl⟩ := assign_eq_ok.1 (mapError_eq_ok.1 hassigned)
  obtain ⟨-, rfl⟩ := statement_eq_ok.1 (mapError_eq_ok.1 hstart)
  obtain ⟨-, hconstants⟩ := (atLoad_emitInterfaceMembers ⟨r, none⟩ i i.members).run_none hmembers
  exact ⟨hknown, members.flatten, hconstants, rfl⟩

end ClassScript
