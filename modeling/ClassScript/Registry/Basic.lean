import ClassScript.Diagnostic
import ClassScript.NamespaceTree
import ClassScript.Search
import ClassScript.Tree.Basic
/-!
# The registry

All classes and interfaces that a compilation knows, in the order they were added. A name has at
most one entry, and an entry stays as it was added. Questions about the visibility of members are
answered from a memo where they were asked before; a new class makes the memo empty.
-/

namespace ClassScript

/-- Members by name, in the order of their first declaration. -/
abbrev MemberTable := List (String × Visibility)

/-- The table with a member's visibility; a repeated name keeps its place. -/
def MemberTable.put (t : MemberTable) (name : String) (v : Visibility) : MemberTable :=
  match t with
  | [] => [(name, v)]
  | (n, w) :: rest => if n = name then (n, v) :: rest else (n, w) :: MemberTable.put rest name v

structure ClassEntry where
  name : String
  parent : Option String
  interfaces : List String
  properties : MemberTable := []
  methods : MemberTable := []
  constants : MemberTable := []
  /-- Whether the class comes with the library. -/
  isInternal : Bool
deriving DecidableEq, Repr, Inhabited

structure InterfaceEntry where
  name : String
  parents : List String
  methods : MemberTable := []
  constants : MemberTable := []
  isInternal : Bool
deriving DecidableEq, Repr, Inhabited

structure Registry where
  classes : List ClassEntry := []
  interfaces : List InterfaceEntry := []
  /-- Visibilities found before, by class and member. -/
  memo : List ((String × String) × Visibility) := []
deriving Inhabited

namespace Registry

inductive Fault where
  | duplicate (name : String)
  | unresolvedMember (owner member : String)
  | unknownClass (name : String)
  | unknownInterface (name : String)
  | cycle (name : String)
deriving DecidableEq, Repr

namespace Fault

def kind : Fault → Diagnostic.Kind
  | duplicate _ => .duplicateDefinition
  | unresolvedMember .. => .internal
  | unknownClass _ | unknownInterface _ => .unknownIdentifier
  | cycle _ => .unsupported

def message : Fault → String
  | duplicate name => name ++ " is defined more than once"
  | unresolvedMember owner member =>
    "member " ++ owner ++ "::" ++ member ++ " reached the registry without a resolved visibility"
  | unknownClass name => "unknown class " ++ name
  | unknownInterface name => "unknown interface " ++ name
  | cycle name => "inheritance cycle through " ++ name

def diagnostic (f : Fault) : Diagnostic := { kind := f.kind, message := f.message }

end Fault

/-! ## Entries -/

def class? (r : Registry) (name : String) : Option ClassEntry := r.classes.find? (·.name == name)

def interface? (r : Registry) (name : String) : Option InterfaceEntry :=
  r.interfaces.find? (·.name == name)

theorem class?_mem {r : Registry} {n : String} {e : ClassEntry} (h : r.class? n = some e) :
    e ∈ r.classes := List.mem_of_find?_eq_some h

theorem class?_name {r : Registry} {n : String} {e : ClassEntry} (h : r.class? n = some e) :
    e.name = n := by simpa using List.find?_some h

theorem interface?_mem {r : Registry} {n : String} {e : InterfaceEntry}
    (h : r.interface? n = some e) : e ∈ r.interfaces := List.mem_of_find?_eq_some h

theorem interface?_name {r : Registry} {n : String} {e : InterfaceEntry}
    (h : r.interface? n = some e) : e.name = n := by simpa using List.find?_some h

theorem unseen_classes_lt {r : Registry} {n : String} {e : ClassEntry} (h : r.class? n = some e)
    {seen : List String} (hs : ¬seen.contains n = true) :
    unseen (·.name) r.classes (n :: seen) < unseen (·.name) r.classes seen := by
  have hn := class?_name h
  subst hn
  exact unseen_cons_lt (f := (·.name)) (class?_mem h) (Bool.eq_false_iff.2 hs)

theorem unseen_interfaces_lt {r : Registry} {n : String} {e : InterfaceEntry} (h : r.interface? n = some e)
    {seen : List String} (hs : ¬seen.contains n = true) :
    unseen (·.name) r.interfaces (n :: seen) < unseen (·.name) r.interfaces seen := by
  have hn := interface?_name h
  subst hn
  exact unseen_cons_lt (f := (·.name)) (interface?_mem h) (Bool.eq_false_iff.2 hs)

def contains (r : Registry) (name : String) : Bool :=
  (r.class? name).isSome || (r.interface? name).isSome

def requireClass (r : Registry) (name : String) : Except Fault ClassEntry :=
  match r.class? name with
  | some c => .ok c
  | none => .error (.unknownClass name)

/-! ## Declarations -/

def visibilityOf (owner member : String) : Option Visibility → Except Fault Visibility
  | some v => .ok v
  | none => .error (.unresolvedMember owner member)

/-- The entry with one more member. -/
def ClassEntry.withMember (e : ClassEntry) : Member → Except Fault ClassEntry
  | .property d => do
    return { e with properties := e.properties.put d.name (← visibilityOf e.name d.name d.resolved) }
  | .method d => do
    return { e with methods := e.methods.put d.name (← visibilityOf e.name d.name d.resolved) }
  | .const d => do
    return { e with constants := e.constants.put d.name (← visibilityOf e.name d.name d.resolved) }
  | .traitUse _ => return e

/-- The entry with one more member; properties and traits do not count. -/
def InterfaceEntry.withMember (e : InterfaceEntry) : Member → Except Fault InterfaceEntry
  | .method d => do
    return { e with methods := e.methods.put d.name (← visibilityOf e.name d.name d.resolved) }
  | .const d => do
    return { e with constants := e.constants.put d.name (← visibilityOf e.name d.name d.resolved) }
  | _ => return e

def classEntry (c : Class) (isInternal : Bool) : Except Fault ClassEntry :=
  c.members.foldlM ClassEntry.withMember
    { name := c.qualifiedName
      parent := c.parent.map Name.joined
      interfaces := c.interfaces.map Name.joined
      isInternal }

def interfaceEntry (i : Interface) (isInternal : Bool) : Except Fault InterfaceEntry :=
  i.members.foldlM InterfaceEntry.withMember
    { name := i.qualifiedName
      parents := i.parents.map Name.joined
      isInternal }

/-- Fails at `pos` if the name has an entry. -/
def requireNew (r : Registry) (name : String) (pos : Position) : Result Unit :=
  if r.contains name then .error ((Fault.duplicate name).diagnostic.placed pos) else .ok ()

def addClass (r : Registry) (c : Class) (isInternal : Bool) : Result Registry := do
  r.requireNew c.qualifiedName c.pos
  let entry ← (classEntry c isInternal).mapError Fault.diagnostic
  return { r with classes := r.classes ++ [entry], memo := [] }

def addInterface (r : Registry) (i : Interface) (isInternal : Bool) : Result Registry := do
  r.requireNew i.qualifiedName i.pos
  let entry ← (interfaceEntry i isInternal).mapError Fault.diagnostic
  return { r with interfaces := r.interfaces ++ [entry] }

/-- What a registry is asked or told: the registry stays as it is where an answer fails. -/
abbrev Query := ExceptT Diagnostic (StateM Registry)

/-- Replaces the registry, or fails and keeps it. -/
def update (f : Registry → Result Registry) : Query Unit := do
  let r ← getThe Registry
  match f r with
  | .ok r => set r
  | .error d => throw d

/-- Adds the interfaces of a file, then its classes, and gives their names. What was added before a
failure stays. -/
def addFile (f : SourceFile) (isInternal : Bool) : Query (List String) := do
  f.interfaces.forM fun i => update fun r => (r.addInterface i isInternal).mapError (·.inFile f.path)
  f.classes.forM fun c => update fun r => (r.addClass c isInternal).mapError (·.inFile f.path)
  return f.interfaces.map Interface.qualifiedName ++ f.classes.map Class.qualifiedName

/-- The namespaces of all declarations. -/
def namespaces (r : Registry) : NamespaceTree :=
  .ofDeclarations (r.interfaces.map (·.name) ++ r.classes.map (·.name))

end Registry

end ClassScript
