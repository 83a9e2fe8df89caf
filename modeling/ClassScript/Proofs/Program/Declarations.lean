import ClassScript.Name
import ClassScript.Proofs.Program.Namespaces
import ClassScript.Proofs.Registry.Order
import ClassScript.Proofs.Text.Word
import Mathlib.Data.List.Induction
/-!
# What becomes of declarations

A program starts with an object for each namespace and then assigns its declarations one after the
other, each to the path that its name spells. An assignment replaces what was there, with all that was
below it, and fails if nothing is there to hold the path.

A declaration may stand where others have their namespace, as `App\Model` does for `App\Model\User`.
All declarations can be found at the end exactly if none is made above an earlier one and none leaves
the others without the namespaces around them (`declarations_survive_iff`). The order of emission does
not see to that (`declaration_lost`).
-/

namespace ClassScript.Program

/-- An object of the running program: what it declares, if it does, and its properties. -/
inductive Object where
  | node (declares : Option String) (fields : List (String × Object))

namespace Object

def declares : Object → Option String
  | node d _ => d

def fields : Object → List (String × Object)
  | node _ fs => fs

@[simp]
theorem fields_node (d : Option String) (fs : List (String × Object)) : (node d fs).fields = fs := rfl

/-- The object of a declaration, as it is made. -/
def declaration (name : String) : Object := node (some name) []

mutual

/-- Nested objects for nested namespaces. -/
def ofNamespaces : NamespaceTree → Object
  | .node children => node none (ofChildren children)

def ofChildren : List (String × NamespaceTree) → List (String × Object)
  | [] => []
  | (segment, child) :: rest => (segment, ofNamespaces child) :: ofChildren rest

end

/-- What the object at a path declares; there may be no such object. -/
def declared? : List String → Option Object → Option (Option String)
  | [], o => o.map declares
  | key :: path, o => declared? path (o.bind fun o => o.fields.lookup key)

/-- The object with a value assigned to a path. Only the last object of the path may be absent. -/
def assign? (value : Object) : List String → Option Object → Option Object
  | [], _ => some value
  | _ :: _, none => none
  | key :: path, some o => (assign? value path (o.fields.lookup key)).map fun inner =>
    node o.declares (Dictionary.insertInto key inner o.fields)

/-! ## Assignments -/

theorem declared?_none (path : List String) : declared? path none = none := by
  induction path with
  | nil => rfl
  | cons key path ih => exact ih

variable {value o' : Object} {o : Option Object}

/-- An assignment needs what holds its path. -/
theorem assign?_isSome (path : List String) (key : String) (o : Option Object) :
    (assign? value (path ++ [key]) o).isSome = (declared? path o).isSome := by
  induction path generalizing o with
  | nil => cases o <;> rfl
  | cons s path ih =>
    cases o with
    | none => simp [assign?, declared?_none]
    | some o => rw [List.cons_append, assign?, Option.isSome_map, ih]; rfl

/-- What an assignment does: the value is what stands at its path and below, and all else stays. -/
theorem declared?_assign {path : List String} (h : assign? value path o = some o') (q : List String) :
    declared? q o' =
      if path <+: q then declared? (q.drop path.length) value else declared? q o := by
  induction path generalizing o o' q with
  | nil => simp_all [assign?]
  | cons key path ih =>
    cases o with
    | none => cases h
    | some o =>
      obtain ⟨inner, hinner, rfl⟩ := Option.map_eq_some_iff.1 h
      cases q with
      | nil => rfl
      | cons s q =>
        simp only [declared?, Option.bind_some, fields_node, Dictionary.lookup_insertInto,
          List.cons_prefix_cons, List.length_cons, List.drop_succ_cons]
        by_cases hs : s = key
        · subst hs
          simpa using ih hinner q
        · simp [hs, Ne.symm hs]

theorem declared?_declaration (name : String) (q : List String) :
    declared? q (declaration name) = if q = [] then some (some name) else none := by
  cases q with
  | nil => rfl
  | cons s q => exact declared?_none q

/-! ## Namespaces -/

theorem lookup_ofChildren (cs : List (String × NamespaceTree)) (s : String) :
    (ofChildren cs).lookup s = (cs.lookup s).map ofNamespaces := by
  induction cs with
  | nil => rfl
  | cons c cs ih =>
    obtain ⟨k, t⟩ := c
    rw [ofChildren, Dictionary.lookup_cons_ite, Dictionary.lookup_cons_ite, ih]
    split <;> rfl

/-- There is an object for each namespace. -/
theorem declared?_ofNamespaces {t : NamespaceTree} {path : List String} (h : t.Has path) :
    (declared? path (ofNamespaces t)).isSome := by
  induction path generalizing t with
  | nil => rfl
  | cons s path ih =>
    obtain ⟨child, hchild, h⟩ := h
    cases t with
    | node cs =>
      rw [declared?, ofNamespaces]
      simp only [Option.bind_some, fields_node, lookup_ofChildren]
      rw [show cs.lookup s = some child from hchild]
      exact ih h

end Object

open Object

/-! ## Runs -/

/-- The path that a name spells. -/
abbrev spelled (name : String) : List String := Name.partsOf name

/-- Makes one declaration. -/
def declareName (o : Object) (name : String) : Option Object :=
  assign? (declaration name) (spelled name) o

/-- Makes declarations one after the other. -/
def declareAll (o : Object) (names : List String) : Option Object := names.foldlM declareName o

/-- The last of some declarations that stands at a path or above it. -/
def lastAbove? (names : List String) (path : List String) : Option String :=
  names.reverse.find? fun n => decide (spelled n <+: path)

variable {names : List String} {o o' : Object}

theorem lastAbove?_concat (names : List String) (n : String) (path : List String) :
    lastAbove? (names ++ [n]) path = if spelled n <+: path then some n else lastAbove? names path := by
  simp only [lastAbove?, List.reverse_append, List.reverse_singleton, List.singleton_append,
    List.find?_cons]
  by_cases h : spelled n <+: path <;> simp [h]

theorem declareAll_concat (o : Object) (names : List String) (n : String) :
    declareAll o (names ++ [n]) = (declareAll o names).bind fun x => declareName x n := by
  simp [declareAll, List.foldlM_append]

/-- What stands at a path is the last declaration there or above, or what was there at the start. -/
theorem declared?_declareAll (h : declareAll o names = some o') (path : List String) :
    declared? path o' = match lastAbove? names path with
      | some n => if spelled n = path then some (some n) else none
      | none => declared? path o := by
  induction names using List.reverseRecOn generalizing o' with
  | nil => cases h; rfl
  | append_singleton names n ih =>
    rw [declareAll_concat] at h
    obtain ⟨x, hx, hn⟩ := Option.bind_eq_some_iff.1 h
    rw [declared?_assign hn, lastAbove?_concat, declared?_declaration]
    split
    · next hprefix =>
      obtain ⟨rest, rfl⟩ := hprefix
      cases rest <;> simp
    · exact ih hx

/-- Whether each declaration is the last one at its path or above. -/
theorem pairwise_iff_lastAbove? (hnodup : names.Nodup) :
    names.Pairwise (fun a b => ¬spelled b <+: spelled a) ↔
      ∀ n ∈ names, lastAbove? names (spelled n) = some n := by
  induction names using List.reverseRecOn with
  | nil => simp
  | append_singleton names n ih =>
    have hn : n ∉ names := fun hmem => List.disjoint_of_nodup_append hnodup hmem (.head _)
    simp only [List.pairwise_append, List.pairwise_singleton, true_and, ih hnodup.of_append_left,
      List.forall_mem_append, List.forall_mem_singleton, lastAbove?_concat, List.prefix_rfl, if_true,
      and_true]
    rw [← forall₂_and]
    refine forall₂_congr fun a ha => ?_
    by_cases habove : spelled n <+: spelled a
    · simp only [habove, not_true, and_false, if_true, Option.some.injEq, false_iff]
      rintro rfl
      exact hn ha
    · simp [habove]

theorem exists_lastAbove? {n : String} (hn : n ∈ names) {path : List String} (h : spelled n <+: path) :
    ∃ d ∈ names, lastAbove? names path = some d := by
  have hsome : (lastAbove? names path).isSome := by
    simp only [lastAbove?, List.find?_isSome, List.mem_reverse, decide_eq_true_eq]
    exact ⟨n, hn, h⟩
  obtain ⟨d, hd⟩ := Option.isSome_iff_exists.1 hsome
  exact ⟨d, List.mem_reverse.1 (List.mem_of_find?_eq_some hd), hd⟩

theorem spelled_lastAbove? {d : String} {path : List String} (h : lastAbove? names path = some d) :
    spelled d <+: path := by simpa using List.find?_some h

/-- A declaration is found at its path exactly if it is the last one there or above. -/
theorem declared?_spelled {n : String} (hn : n ∈ names) (h : declareAll o names = some o') :
    declared? (spelled n) o' = some (some n) ↔ lastAbove? names (spelled n) = some n := by
  obtain ⟨d, -, hd⟩ := exists_lastAbove? hn List.prefix_rfl
  rw [declared?_declareAll h, hd]
  constructor
  · intro heq
    split at heq <;> simp_all
  · rintro ⟨⟩
    simp

/-! ## Which declarations survive -/

/-- No declaration does away with an earlier one, or with what a later one needs. -/
structure Sheltered (names : List String) : Prop where
  /-- Nothing is declared above what was declared before. -/
  settled : names.Pairwise fun a b => ¬spelled b <+: spelled a
  /-- What stands below a declaration stands directly below one. -/
  held : ∀ a ∈ names, ∀ b ∈ names, spelled b ≠ [] → spelled a <+: (spelled b).dropLast →
    ∃ c ∈ names, spelled c = (spelled b).dropLast

instance (names : List String) : Decidable (Sheltered names) :=
  decidable_of_iff (names.Pairwise (fun a b => ¬spelled b <+: spelled a) ∧
      ∀ a ∈ names, ∀ b ∈ names, spelled b ≠ [] → spelled a <+: (spelled b).dropLast →
        ∃ c ∈ names, spelled c = (spelled b).dropLast)
    ⟨fun h => ⟨h.1, h.2⟩, fun h => ⟨h.settled, h.held⟩⟩

/-- What holds the path of a declaration is there at the start. -/
def Founded (o : Object) (names : List String) : Prop :=
  ∀ n ∈ names, ∀ path key, spelled n = path ++ [key] → (declared? path o).isSome

/-- Sheltered declarations are all made. -/
theorem Sheltered.declareAll (hnames : Sheltered names) (hnodup : names.Nodup) (ho : Founded o names) :
    ∃ o', declareAll o names = some o' := by
  suffices h : ∀ done rest, names = done ++ rest → ∃ x, Program.declareAll o done = some x from
    h names [] (by simp)
  intro done
  induction done using List.reverseRecOn with
  | nil => exact fun _ _ => ⟨o, rfl⟩
  | append_singleton done b ih =>
    intro rest hsplit
    obtain ⟨x, hx⟩ := ih (b :: rest) (by simpa using hsplit)
    have hb : b ∈ names := by simp [hsplit]
    rw [declareAll_concat, hx, Option.bind_some]
    refine Option.isSome_iff_exists.1 ?_
    rcases List.eq_nil_or_concat (spelled b) with hnil | ⟨path, key, hpath⟩
    · rw [declareName, hnil]
      rfl
    rw [List.concat_eq_append] at hpath
    rw [declareName, hpath, assign?_isSome, declared?_declareAll hx]
    cases hd : lastAbove? done path with
    | none => exact ho b hb path key hpath
    | some d =>
      have hmem : d ∈ done := List.mem_reverse.1 (List.mem_of_find?_eq_some hd)
      have habove : spelled d <+: (spelled b).dropLast := by simpa [hpath] using spelled_lastAbove? hd
      obtain ⟨c, hc, hcb⟩ := hnames.held d (by simp [hsplit, hmem]) b hb (by simp [hpath]) habove
      obtain rfl : spelled c = path := by simpa [hpath] using hcb
      -- The declaration that holds `b` cannot come behind it.
      have hsettled := hnames.settled
      rw [hsplit, List.append_assoc, List.singleton_append, List.pairwise_append,
        List.pairwise_cons] at hsettled
      have hdone : c ∈ done := by
        rw [hsplit] at hc
        simp only [List.mem_append, List.mem_singleton] at hc
        rcases hc with (hc | rfl) | hc
        · exact hc
        · exact absurd hpath (by simp)
        · exact absurd (hpath ▸ List.prefix_append _ _) (hsettled.2.1.1 c hc)
      have hdoneNodup : done.Nodup := by
        rw [hsplit] at hnodup
        exact hnodup.of_append_left.of_append_left
      rw [(pairwise_iff_lastAbove? hdoneNodup).1 hsettled.1 c hdone] at hd
      cases hd
      simp

/-- Declarations that are all made and found at the end are sheltered. -/
theorem sheltered_of_found (hnodup : names.Nodup) (h : declareAll o names = some o')
    (hfound : ∀ n ∈ names, declared? (spelled n) o' = some (some n)) : Sheltered names := by
  have hsettled : names.Pairwise fun a b => ¬spelled b <+: spelled a :=
    (pairwise_iff_lastAbove? hnodup).2 fun n hn => (declared?_spelled hn h).1 (hfound n hn)
  refine ⟨hsettled, fun a ha b hb hb' habove => ?_⟩
  obtain ⟨path, key, hpath⟩ : ∃ path key, spelled b = path ++ [key] :=
    ⟨_, _, (List.dropLast_append_getLast hb').symm⟩
  rw [hpath, List.dropLast_concat] at habove ⊢
  obtain ⟨done, rest, rfl⟩ := List.append_of_mem hb
  rw [List.pairwise_append, List.pairwise_cons] at hsettled
  have hdone : a ∈ done := by
    rcases List.mem_append.1 ha with ha | ha
    · exact ha
    · rcases List.mem_cons.1 ha with rfl | ha
      · exact absurd (hpath ▸ habove : path ++ [key] <+: path).length_le (by simp)
      · exact absurd (hpath ▸ habove.trans (List.prefix_append _ _)) (hsettled.2.1.1 a ha)
  obtain ⟨x, hx, hrest⟩ : ∃ x, declareAll o done = some x ∧ (declareName x b).isSome := by
    rw [declareAll, List.foldlM_append] at h
    obtain ⟨x, hx, h⟩ := Option.bind_eq_some_iff.1 h
    obtain ⟨y, hy, -⟩ := Option.bind_eq_some_iff.1 h
    exact ⟨x, hx, hy ▸ rfl⟩
  obtain ⟨d, hd, hlast⟩ := exists_lastAbove? hdone habove
  rw [declareName, hpath, assign?_isSome, declared?_declareAll hx, hlast] at hrest
  refine ⟨d, List.mem_append_left _ hd, ?_⟩
  by_contra hne
  simp [hne] at hrest

end ClassScript.Program

namespace ClassScript.Registry

open Program Object

/-- All but the last segment of a name lead to a namespace around it. -/
theorem prefix_around {n key : String} {path : List String} (h : spelled n = path ++ [key]) :
    path <+: NamespaceTree.around n := by
  have hsplit := List.dropLast_append_getLast (segments_ne_nil '\\' n.toList)
  rw [spelled, Name.partsOf, Name.separator, ← hsplit, List.filter_append, List.map_append] at h
  show path <+: ((segments '\\' n.toList).dropLast.filter (!·.isEmpty)).map String.ofList
  by_cases hlast : ((segments '\\' n.toList).getLast (segments_ne_nil _ _)).isEmpty
  · rw [List.filter_singleton, hlast] at h
    exact ⟨[key], by simpa using h.symm⟩
  · rw [List.filter_singleton, Bool.eq_false_iff.2 hlast] at h
    exact (List.append_inj' h rfl).1 ▸ List.prefix_rfl

/-- The namespaces of a registry hold all its declarations. -/
theorem founded_namespaces (r : Registry) {names : List String} (h : ∀ n ∈ names, n ∈ r.names) :
    Founded (ofNamespaces r.namespaces) names := by
  intro n hn path key hpath
  refine declared?_ofNamespaces ((NamespaceTree.has_ofDeclarations _ _).2 (.inr ⟨n, ?_, prefix_around hpath⟩))
  exact List.mem_append.2 (List.mem_append.1 (h n hn)).symm

/-- All declarations are made and found at the end exactly if the order of emission shelters them. -/
theorem declarations_survive_iff {r : Registry} (hr : r.names.Nodup) {interfaces classes : List String}
    (hi : r.interfaceOrder = .ok interfaces) (hc : r.classOrder = .ok classes) :
    (∃ o, declareAll (ofNamespaces r.namespaces) (interfaces ++ classes) = some o ∧
      ∀ n ∈ interfaces ++ classes, declared? (spelled n) o = some (some n)) ↔
      Sheltered (interfaces ++ classes) := by
  have hnodup := orders_nodup hr hi hc
  have hknown : ∀ n ∈ interfaces ++ classes, n ∈ r.names := by
    refine List.forall_mem_append.2 ⟨fun n hn => ?_, fun n hn => ?_⟩
    · exact List.mem_append_right _ (interfaceOrder_known hi n hn)
    · exact List.mem_append_left _ (classOrder_known hc n hn)
  constructor
  · rintro ⟨o, ho, hfound⟩
    exact sheltered_of_found hnodup ho hfound
  · intro hsheltered
    obtain ⟨o, ho⟩ := hsheltered.declareAll hnodup (founded_namespaces r hknown)
    exact ⟨o, ho, fun n hn => (declared?_spelled hn ho).2
      ((pairwise_iff_lastAbove? hnodup).1 hsheltered.settled n hn)⟩

/-- A registry of two classes without parents. -/
def pairRegistry (first second : String) : Registry where
  classes := [first, second].map fun name =>
    { name, parent := none, interfaces := [], isInternal := false }

theorem pairRegistry_interfaceOrder (first second : String) :
    (pairRegistry first second).interfaceOrder = .ok [] := by
  exact mapError_eq_ok.2 (by simp [pairRegistry, placeInterfaces])

theorem pairRegistry_classOrder {first second : String} (h : first ≠ second) :
    (pairRegistry first second).classOrder = .ok [first, second] :=
  classOrder_roots (r := pairRegistry first second) (by simp [pairRegistry])
    (by simpa [pairRegistry] using h)

/-- A class that is declared before one in the namespace of its name leaves it in place. -/
theorem pairRegistry_survive :
    let r := pairRegistry "App\\Model" "App\\Model\\User"
    r.names.Nodup ∧ r.interfaceOrder = .ok [] ∧
      r.classOrder = .ok ["App\\Model", "App\\Model\\User"] ∧
      ∃ o, declareAll (ofNamespaces r.namespaces) ["App\\Model", "App\\Model\\User"] = some o ∧
        ∀ n ∈ ["App\\Model", "App\\Model\\User"], declared? (spelled n) o = some (some n) := by
  intro r
  have hr : r.names.Nodup := by decide
  have hi : r.interfaceOrder = .ok [] := pairRegistry_interfaceOrder _ _
  have hc : r.classOrder = .ok ["App\\Model", "App\\Model\\User"] :=
    pairRegistry_classOrder (by decide)
  have hsheltered : Sheltered ([] ++ ["App\\Model", "App\\Model\\User"]) := by decide
  have hfound := (declarations_survive_iff hr hi hc).2 hsheltered
  rw [List.nil_append] at hfound
  exact ⟨hr, hi, hc, hfound⟩

/-- A class that is declared behind one in the namespace of its name does away with it. -/
theorem declaration_lost :
    let r := pairRegistry "App\\Model\\User" "App\\Model"
    r.names.Nodup ∧ r.interfaceOrder = .ok [] ∧
      r.classOrder = .ok ["App\\Model\\User", "App\\Model"] ∧
      ∃ o, declareAll (ofNamespaces r.namespaces) ["App\\Model\\User", "App\\Model"] = some o ∧
        declared? (spelled "App\\Model\\User") o = none := by
  have hstart : (pairRegistry "App\\Model\\User" "App\\Model").namespaces =
      .node [("App", .node [("Model", .empty)])] := rfl
  refine ⟨by decide, pairRegistry_interfaceOrder _ _, pairRegistry_classOrder (by decide),
    .node none [("App", .node none [("Model", .declaration "App\\Model")])], ?_, rfl⟩
  rw [hstart]
  rfl

end ClassScript.Registry
