import ClassScript.Emit.Identifier
import ClassScript.Proofs.Script.Made
import Mathlib.Data.List.Infix
/-!
# What is read when a program is loaded

A path such as `root.A.b` is read when a node that holds it is evaluated. The body of a function waits
for a call, unless the function is called where it stands. The target of an assignment counts as read,
since it cannot be written without the object that it belongs to.
-/

namespace ClassScript.Script

open Emit

namespace Node

/-- The name of a property, if it is fixed. -/
def keyName? : Node → Option String
  | identifier s | string s => some s
  | _ => none

/-- The names that lead from the root to a node that is a dotted path. -/
def rootPath? : Node → Option (List String)
  | identifier x => if x = rootName then some [] else none
  | property o k => do return (← o.rootPath?) ++ [← k.keyName?]
  | _ => none

attribute [local simp] rootPath?

/-- The nodes whose values are needed for a node. The name behind a dot is no node of its own. -/
def evaluated : Node → List Node
  | function .. => []
  | call (function _ body) args => args ++ [body]
  | property o (identifier _) => [o]
  | n => n.children

theorem sizeOf_lt_of_mem_evaluated {n c : Node} (h : c ∈ n.evaluated) : sizeOf c < sizeOf n := by
  unfold evaluated at h
  split at h
  · cases h
  · rcases List.mem_append.1 h with h | h
    · have := List.sizeOf_lt_of_mem h
      simp
      omega
    · rw [List.mem_singleton.1 h]
      simp
      omega
  · rw [List.mem_singleton.1 h]
    simp
    omega
  · exact sizeOf_lt_of_mem_children h

/-- The paths that are read when a node is evaluated. A dotted path is read as a whole. -/
def loads (n : Node) : List (List String) :=
  match n.rootPath? with
  | some path => [path]
  | none => n.evaluated.attach.flatMap fun ⟨c, _⟩ => c.loads
termination_by sizeOf n
decreasing_by exact sizeOf_lt_of_mem_evaluated (by assumption)

theorem loads_path {n : Node} {path : List String} (h : n.rootPath? = some path) : n.loads = [path] := by
  rw [loads, h]

theorem loads_eq {n : Node} (h : n.rootPath? = none) : n.loads = n.evaluated.flatMap loads := by
  rw [loads, h]
  simp [List.flatMap_def]

@[simp] theorem loads_string (s : String) : (string s).loads = [] := loads_eq rfl

@[simp] theorem loads_function (params : List Node) (body : Node) : (function params body).loads = [] :=
  loads_eq rfl

theorem loads_identifier {x : String} (h : x ≠ rootName) : (identifier x).loads = [] :=
  loads_eq (by simp [h])

theorem keyName?_keyNode (name : String) : (keyNode name).keyName? = some name := by
  unfold keyNode
  split <;> rfl

/-- A property of a node that is no path from the root reads what the node reads. -/
theorem loads_keyed {o : Node} (h : o.rootPath? = none) (name : String) :
    (property o (keyNode name)).loads = o.loads := by
  have hpath : (property o (keyNode name)).rootPath? = none := by simp [h]
  rw [loads_eq hpath]
  unfold keyNode
  split <;> simp [evaluated, children]

end Node

/-! ## Paths -/

/-- A dotted path, made of one access after the other. -/
def pathNode (first : String) (rest : List String) : Node :=
  rest.foldl (fun o name => .property o (keyNode name)) (.identifier first)

theorem pathNode_concat (first : String) (rest : List String) (name : String) :
    pathNode first (rest ++ [name]) = .property (pathNode first rest) (keyNode name) := by simp [pathNode]

theorem isAssignable_pathNode (first : String) (rest : List String) :
    (pathNode first rest).isAssignable = true := by
  have hfold (n : Node) (hn : n.isAssignable = true) :
      (rest.foldl (fun o name => Node.property o (keyNode name)) n).isAssignable = true := by
    induction rest generalizing n with
    | nil => exact hn
    | cons name rest ih => exact ih _ rfl
  exact hfold _ rfl

theorem isStatement_pathNode (first : String) (rest : List String) :
    (pathNode first rest).isStatement = false := by
  have h := isAssignable_pathNode first rest
  cases hn : pathNode first rest with
  | identifier | property => rfl
  | _ =>
    rw [hn] at h
    cases h

theorem path_eq_ok {first : String} {rest : List String} {n : Node} : path (first :: rest) = .ok n ↔
    isIdentifierName first = true ∧ n = pathNode first rest := by
  have hfold (o : Node) (ho : o.isStatement = false) : rest.foldlM member o = .ok n ↔
      n = rest.foldl (fun o name => .property o (keyNode name)) o := by
    induction rest generalizing o with
    | nil => exact ok_eq_ok
    | cons name rest ih =>
      rw [List.foldlM_cons, bind_eq_ok]
      simp only [member_eq_ok, ho, true_and, exists_eq_left]
      exact ih _ rfl
  unfold path
  rw [bind_eq_ok]
  simp only [ident_eq_ok, and_assoc, exists_and_left, exists_eq_left]
  exact and_congr_right fun _ => hfold _ rfl

theorem classPath_eq_ok {q : String} {n : Node} :
    classPath q = .ok n ↔ n = pathNode rootName (Name.partsOf q) :=
  path_eq_ok.trans (and_iff_right (by decide))

theorem rootPath?_pathNode (rest : List String) : (pathNode rootName rest).rootPath? = some rest := by
  induction rest using List.reverseRecOn with
  | nil => rfl
  | append_singleton rest name ih =>
    rw [pathNode_concat]
    simp [Node.rootPath?, ih, Node.keyName?_keyNode]

/-! ## What made nodes read -/

/-- Every path that is read goes through one of the given ones. -/
def LoadsWithin (ps : List (List String)) (n : Node) : Prop := ∀ q ∈ n.loads, ∃ p ∈ ps, p <+: q

namespace LoadsWithin

variable {ps : List (List String)} {n o k c t v l r x : Node} {ns : List Node} {name symbol : String}

theorem of_evaluated (h : n.rootPath? = none) (hall : ∀ m ∈ n.evaluated, LoadsWithin ps m) :
    LoadsWithin ps n := by
  intro q hq
  rw [Node.loads_eq h] at hq
  obtain ⟨m, hm, hq⟩ := List.mem_flatMap.1 hq
  exact hall m hm q hq

theorem leaf (h : n.rootPath? = none) (he : n.evaluated = []) : LoadsWithin ps n :=
  of_evaluated h (by simp [he])

theorem identifier (h : name ≠ rootName) : LoadsWithin ps (.identifier name) := by
  rw [LoadsWithin, Node.loads_identifier h]
  exact nofun

theorem ident (hroot : name ≠ rootName) (h : ident name = .ok n) : LoadsWithin ps n := by
  obtain ⟨-, rfl⟩ := ident_eq_ok.1 h
  exact identifier hroot

/-- A property extends the path of its object. -/
theorem property (ho : LoadsWithin ps o) (hk : LoadsWithin ps k) : LoadsWithin ps (.property o k) := by
  cases hpath : (Node.property o k).rootPath? with
  | none =>
    refine of_evaluated hpath fun m hm => ?_
    have hm : m = o ∨ m = k := by
      unfold Node.evaluated at hm
      split at hm <;> simp_all [Node.children]
    rcases hm with rfl | rfl
    · exact ho
    · exact hk
  | some q =>
    intro q' hq'
    rw [Node.loads_path hpath, List.mem_singleton] at hq'
    subst hq'
    obtain ⟨p, hp, key, -, rfl⟩ : ∃ p, o.rootPath? = some p ∧ ∃ key, k.keyName? = some key ∧
        p ++ [key] = q' := by
      simpa [Node.rootPath?, Option.bind_eq_some_iff] using hpath
    obtain ⟨p', hp', hprefix⟩ := ho p (by rw [Node.loads_path hp]; exact List.mem_singleton_self p)
    exact ⟨p', hp', hprefix.trans (List.prefix_append p [key])⟩

theorem keyed (ho : LoadsWithin ps o) (name : String) : LoadsWithin ps (.property o (keyNode name)) := by
  cases hpath : o.rootPath? with
  | none =>
    rw [LoadsWithin, Node.loads_keyed hpath]
    exact ho
  | some p =>
    have hkeyed : (Node.property o (keyNode name)).rootPath? = some (p ++ [name]) := by
      simp [Node.rootPath?, hpath, Node.keyName?_keyNode]
    intro q hq
    rw [Node.loads_path hkeyed, List.mem_singleton] at hq
    obtain ⟨p', hp', hprefix⟩ := ho p (by rw [Node.loads_path hpath]; exact List.mem_singleton_self p)
    exact ⟨p', hp', hq ▸ hprefix.trans (List.prefix_append p [name])⟩

theorem member (ho : LoadsWithin ps o) (h : member o name = .ok n) : LoadsWithin ps n := by
  obtain ⟨-, rfl⟩ := member_eq_ok.1 h
  exact ho.keyed name

theorem propertyOf (ho : LoadsWithin ps o) (hk : LoadsWithin ps k) (h : propertyOf o [k] = .ok n) :
    LoadsWithin ps n := by
  obtain ⟨-, -, -, rfl⟩ := propertyOf_eq_ok.1 h
  exact ho.property hk

/-- A path from elsewhere than the root reads nothing of what is declared. -/
theorem path {first : String} {rest : List String} (hroot : first ≠ rootName)
    (h : path (first :: rest) = .ok n) : LoadsWithin ps n := by
  obtain ⟨-, rfl⟩ := path_eq_ok.1 h
  have hfold (o : Node) (ho : LoadsWithin ps o) :
      LoadsWithin ps (rest.foldl (fun o name => .property o (keyNode name)) o) := by
    clear h
    induction rest generalizing o with
    | nil => exact ho
    | cons name rest ih => exact ih _ (ho.keyed name)
  exact hfold _ (identifier hroot)

theorem rootPath {rest : List String} (hrest : rest ∈ ps) (h : Script.path (rootName :: rest) = .ok n) :
    LoadsWithin ps n := by
  obtain ⟨-, rfl⟩ := path_eq_ok.1 h
  intro q hq
  rw [Node.loads_path (rootPath?_pathNode rest), List.mem_singleton] at hq
  exact ⟨rest, hrest, hq ▸ List.prefix_rfl⟩

theorem assign (ht : LoadsWithin ps t) (hv : LoadsWithin ps v) (h : assign t v = .ok n) :
    LoadsWithin ps n := by
  obtain ⟨-, -, rfl⟩ := assign_eq_ok.1 h
  exact of_evaluated rfl (by simp [Node.evaluated, Node.children, ht, hv])

theorem binary (hl : LoadsWithin ps l) (hr : LoadsWithin ps r) (h : binary symbol l r = .ok n) :
    LoadsWithin ps n := by
  obtain ⟨op, -, -, -, rfl⟩ := binary_eq_ok.1 h
  exact of_evaluated rfl (by simp [Node.evaluated, Node.children, hl, hr])

theorem unary (hx : LoadsWithin ps x) (h : unary symbol x = .ok n) : LoadsWithin ps n := by
  obtain ⟨op, -, -, rfl⟩ := unary_eq_ok.1 h
  exact of_evaluated rfl (by simp [Node.evaluated, Node.children, hx])

theorem ternary (hc : LoadsWithin ps c) (ht : LoadsWithin ps t) (hv : LoadsWithin ps v)
    (h : ternary c t v = .ok n) : LoadsWithin ps n := by
  obtain ⟨-, -, -, rfl⟩ := ternary_eq_ok.1 h
  exact of_evaluated rfl (by simp [Node.evaluated, Node.children, hc, ht, hv])

theorem new (hc : LoadsWithin ps c) (hns : ∀ m ∈ ns, LoadsWithin ps m) (h : new c ns = .ok n) :
    LoadsWithin ps n := by
  obtain ⟨-, -, rfl⟩ := new_eq_ok.1 h
  refine of_evaluated rfl fun m hm => ?_
  rcases List.mem_cons.1 hm with rfl | hm
  · exact hc
  · exact hns m hm

/-- A callee that is no function itself, only leads to one. -/
theorem call (hc : LoadsWithin ps c) (hname : c.isAssignable = true) (hns : ∀ m ∈ ns, LoadsWithin ps m)
    (h : call c ns = .ok n) : LoadsWithin ps n := by
  obtain ⟨-, -, rfl⟩ := call_eq_ok.1 h
  refine of_evaluated rfl fun m hm => ?_
  have hevaluated : (Node.call c ns).evaluated = c :: ns := by
    cases c <;> first | rfl | cases hname
  rw [hevaluated] at hm
  rcases List.mem_cons.1 hm with rfl | hm
  · exact hc
  · exact hns m hm

theorem methodCall (ho : LoadsWithin ps o) (hns : ∀ m ∈ ns, LoadsWithin ps m)
    (h : methodCall o name ns = .ok n) : LoadsWithin ps n := by
  obtain ⟨callee, hcallee, h⟩ := bind_eq_ok.1 h
  obtain ⟨-, rfl⟩ := member_eq_ok.1 hcallee
  exact call (ho.keyed name) rfl hns h

theorem chain (hns : ∀ m ∈ ns, LoadsWithin ps m) (h : chain symbol ns = .ok n) : LoadsWithin ps n := by
  cases ns with
  | nil => cases h
  | cons m ns =>
    rw [List.forall_mem_cons] at hns
    obtain ⟨hm, hns⟩ := hns
    unfold Script.chain at h
    induction ns generalizing m with
    | nil =>
      obtain rfl := ok_eq_ok.1 h
      exact hm
    | cons next ns ih =>
      rw [List.forall_mem_cons] at hns
      obtain ⟨joined, hjoined, h⟩ := bind_eq_ok.1 h
      exact ih joined h (binary hm hns.1 hjoined) hns.2

end LoadsWithin

end ClassScript.Script
