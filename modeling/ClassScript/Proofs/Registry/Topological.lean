import ClassScript.Proofs.Registry.Behind
import ClassScript.Proofs.Registry.Constants
/-!
# Orders and why there is none

The classes of a registry can be ordered if and only if every line of parents ends (`classOrder_topological`),
the interfaces if and only if they extend known ones and none extends itself (`interfaceOrder_topological`). The
order is then one of the whole graph of links (`Graph.Orders`). Where there is none, the failure names a link
that leads nowhere or a name on a cycle.

That a graph with an order has no cycle is shown along the order. The other direction needs no search: a
failure that is justified cannot arise where nothing justifies it.
-/

namespace ClassScript

open Relation

/-! ## Graphs -/

namespace Graph

variable {g : Graph} {order : List String} {n m : String}

/-- The names that a graph knows. -/
def names (g : Graph) : List String := g.map (·.1)

/-- Links lead from the name back to it. -/
def OnCycle (g : Graph) (n : String) : Prop := TransGen g.Linked n n

/-- The list has each name of the graph once, behind all that it links to. -/
structure Orders (g : Graph) (order : List String) : Prop where
  nodup : order.Nodup
  mem_iff : ∀ n, n ∈ order ↔ n ∈ g.names
  behind : EachBehind (fun before n => g.links n ⊆ before) order

theorem Linked.mem_names (h : g.Linked n m) : n ∈ g.names := by
  unfold Linked links at h
  cases hls : g.lookup n with
  | none => simp [hls] at h
  | some ls => exact List.mem_map_of_mem (f := Prod.fst) (mem_of_lookup hls)

theorem OnCycle.mem_names (h : g.OnCycle n) : n ∈ g.names := by
  obtain ⟨m, hnm, -⟩ := TransGen.head'_iff.1 h
  exact hnm.mem_names

/-- What a name with an order links to is known. -/
theorem Orders.linked_mem (h : g.Orders order) (hlink : g.Linked n m) : m ∈ g.names := by
  obtain ⟨before, behind, hsplit⟩ := List.append_of_mem ((h.mem_iff n).2 hlink.mem_names)
  have hm : m ∈ before := h.behind before n behind hsplit hlink
  exact (h.mem_iff m).1 (hsplit ▸ List.mem_append_left _ hm)

theorem Orders.acyclic (h : g.Orders order) (n : String) : ¬g.OnCycle n := by
  -- a name on a cycle links to one on that cycle, and this one stands before it
  have hstep : EachBehind (fun before a => (∀ b ∈ before, ¬g.OnCycle b) → ¬g.OnCycle a) order := by
    intro before a behind hsplit hbefore ha
    obtain ⟨b, hab, hba⟩ := TransGen.head'_iff.1 ha
    exact hbefore b (h.behind before a behind hsplit hab) (TransGen.tail' hba hab)
  exact fun hn => hstep.forall_of_step n ((h.mem_iff n).2 hn.mem_names) hn

end Graph

namespace Registry

variable {r : Registry}

/-! ## Classes -/

theorem names_parentGraph (r : Registry) : r.parentGraph.names = r.classes.map (·.name) := by
  simp [Graph.names, parentGraph]

theorem linked_parent (hnodup : (r.classes.map (·.name)).Nodup) {c : ClassEntry} (hc : c ∈ r.classes) {p : String}
    (hp : c.parent = some p) : r.parentGraph.Linked c.name p := by
  simp [Graph.Linked, links_parentGraph, class?_of_mem hnodup hc, hp]

/-- The order of a registry is one of its classes with their parents. -/
theorem classOrder_orders (hnodup : (r.classes.map (·.name)).Nodup) {order : List String}
    (h : r.classOrder = .ok order) : r.parentGraph.Orders order := by
  obtain ⟨hbehind, hall⟩ := classOrder_behind hnodup h
  refine ⟨classOrder_nodup h, fun n => ?_, ?_⟩
  · rw [names_parentGraph]
    exact ⟨classOrder_known h n, fun hn => by
      obtain ⟨c, hc, rfl⟩ := List.mem_map.1 hn
      exact hall c hc⟩
  · simpa only [links_parentGraph, parentOf] using hbehind

/-- What justifies that classes cannot be ordered: a parent that is not known, or a cycle. -/
inductive Unordered (r : Registry) : Diagnostic → Prop
  | unknown {c : ClassEntry} {p : String} : c ∈ r.classes → c.parent = some p → r.class? p = none →
      Unordered r ((Fault.unknownClass p).diagnostic.hinted (c.name ++ " extends " ++ p))
  | cycle {n : String} : r.parentGraph.OnCycle n → Unordered r (Fault.cycle n).diagnostic

/-- An ancestry that cannot be found comes to an unknown parent, or back to a class that led there. -/
theorem ancestry_error (hnodup : (r.classes.map (·.name)).Nodup) {placed below : List String} {c : ClassEntry}
    {hc : c ∈ r.classes} {d : Diagnostic} (h : r.ancestry placed below c hc = .error d)
    (hbelow : ∀ n ∈ below, TransGen r.parentGraph.Linked n c.name) : r.Unordered d := by
  fun_induction r.ancestry placed below c hc with
  | case1 => cases h
  | case2 below c hc _ hmem =>
    cases h
    exact .cycle (hbelow _ (by simpa using hmem))
  | case3 => cases h
  | case4 below c hc _ _ p hp hnone =>
    cases h
    exact .unknown hc hp hnone
  | case5 below c hc _ _ p hp e he ih =>
    -- what led to the class leads through it to its parent
    have hlink : r.parentGraph.Linked c.name e.name := class?_name he ▸ linked_parent hnodup hc hp
    rcases bind_eq_error.1 h with h | ⟨_, -, h⟩
    · exact ih h (List.forall_mem_cons.2 ⟨.single hlink, fun n hn => (hbelow n hn).tail hlink⟩)
    · cases h

theorem classOrder_error (hnodup : (r.classes.map (·.name)).Nodup) {d : Diagnostic}
    (h : r.classOrder = .error d) : r.Unordered d := by
  refine (classOrder_run (P := fun _ _ => True) trivial (fun _ _ _ => trivial) ?_).2 d h
  intro done placed c hc d _ _ hd
  exact ancestry_error hnodup hd nofun

/-- The classes of a registry, which has each name once, can be ordered if and only if the line of parents of each
class has known classes only and no cycle. The order then has every class once and behind its parent. Otherwise the
failure is an unknown identifier that names a parent without an entry, or an inheritance cycle that names a class on
one. -/
theorem classOrder_topological (hnodup : (r.classes.map (·.name)).Nodup) :
    ((∃ order, r.classOrder = .ok order) ↔ ∀ c ∈ r.classes, ∀ n,
      ReflTransGen r.parentGraph.Linked c.name n → (r.class? n).isSome = true ∧ ¬r.parentGraph.OnCycle n) ∧
    (∀ order, r.classOrder = .ok order → r.parentGraph.Orders order) ∧
    ∀ d, r.classOrder = .error d → r.Unordered d := by
  refine ⟨⟨?_, ?_⟩, fun _ => classOrder_orders hnodup, fun _ => classOrder_error hnodup⟩
  · rintro ⟨order, h⟩ c hc n hn
    have horders := classOrder_orders hnodup h
    refine ⟨?_, horders.acyclic n⟩
    have hmem : n ∈ r.parentGraph.names := by
      rcases ReflTransGen.cases_tail hn with rfl | ⟨m, -, hlink⟩
      · rw [names_parentGraph]
        exact List.mem_map_of_mem hc
      · exact horders.linked_mem hlink
    simpa [names_parentGraph, class?, List.find?_isSome] using hmem
  · intro hlines
    cases h : r.classOrder with
    | ok order => exact ⟨order, rfl⟩
    | error d =>
      cases classOrder_error hnodup h with
      | unknown hc hp hnone =>
        have hknown := (hlines _ hc _ (.single (linked_parent hnodup hc hp))).1
        simp [hnone] at hknown
      | @cycle n hcycle =>
        have hmem := names_parentGraph r ▸ hcycle.mem_names
        obtain ⟨c, hc, rfl⟩ := List.mem_map.1 hmem
        exact absurd hcycle (hlines c hc _ .refl).2

/-- A line of three classes, each added before its parent; the last one may have a parent, too. -/
def kinRegistry (last : Option String) : Registry where
  classes :=
    [{ name := "Cube", parent := some "Square", interfaces := [], isInternal := false },
      { name := "Square", parent := some "Shape", interfaces := [], isInternal := false },
      { name := "Shape", parent := last, interfaces := [], isInternal := false }]

/-- Classes without a cycle have an order, and those with one have none. -/
theorem kinRegistry_classOrder :
    let line := kinRegistry none
    let loop := kinRegistry (some "Square")
    (line.classes.map (·.name)).Nodup ∧ line.classOrder = .ok ["Shape", "Square", "Cube"] ∧
      line.parentGraph.Orders ["Shape", "Square", "Cube"] ∧
      (loop.classes.map (·.name)).Nodup ∧ ∃ d, loop.classOrder = .error d ∧ loop.Unordered d := by
  intro line loop
  have hline : (line.classes.map (·.name)).Nodup := by decide
  have hloop : (loop.classes.map (·.name)).Nodup := by decide
  have hrun : line.classOrder.toOption = some ["Shape", "Square", "Cube"] := by decide +kernel
  have hok := toOption_eq_some.1 hrun
  refine ⟨hline, hok, (classOrder_topological hline).2.1 _ hok, hloop, ?_⟩
  have hup : loop.parentGraph.Linked "Square" "Shape" := by unfold Graph.Linked; decide
  have hback : loop.parentGraph.Linked "Shape" "Square" := by unfold Graph.Linked; decide
  cases h : loop.classOrder with
  | error d => exact ⟨d, rfl, (classOrder_topological hloop).2.2 d h⟩
  | ok order =>
    have hlines := (classOrder_topological hloop).1.1 ⟨order, h⟩
    exact absurd (.head hup (.single hback)) (hlines _ (.tail _ (.head _)) "Square" .refl).2

/-! ## Interfaces -/

theorem names_interfaceGraph (r : Registry) : r.interfaceGraph.names = r.interfaces.map (·.name) := by
  simp [Graph.names, interfaceGraph]

theorem linked_interface {e : InterfaceEntry} {n m : String} (he : r.interface? n = some e) (hm : m ∈ e.parents) :
    r.interfaceGraph.Linked n m := by
  simpa [Graph.Linked, links_interfaceGraph, he] using hm

theorem interface?_isSome_iff {n : String} : (r.interface? n).isSome = true ↔ n ∈ r.interfaceGraph.names := by
  simp [names_interfaceGraph, interface?, List.find?_isSome]

theorem interfaceOrder_orders {order : List String} (h : r.interfaceOrder = .ok order) :
    r.interfaceGraph.Orders order := by
  obtain ⟨hbehind, hall⟩ := interfaceOrder_behind h
  refine ⟨interfaceOrder_nodup h, fun n => ?_, ?_⟩
  · rw [names_interfaceGraph]
    exact ⟨interfaceOrder_known h n, fun hn => by
      obtain ⟨i, hi, rfl⟩ := List.mem_map.1 hn
      exact hall i hi⟩
  · simpa only [links_interfaceGraph, parentsOf] using hbehind

/-- What justifies that interfaces cannot be placed: a name that is not known, asked for or extended, or a cycle. -/
inductive Unplaced (r : Registry) (names : List String) : Fault → Prop
  | unknown {n : String} : r.interface? n = none → n ∈ names ∨ (∃ i ∈ r.interfaces, n ∈ i.parents) →
      Unplaced r names (.unknownInterface n)
  | cycle {n : String} : r.interfaceGraph.OnCycle n → Unplaced r names (.cycle n)

theorem Unplaced.mono {names names' : List String} {fault : Fault} (h : r.Unplaced names fault)
    (hnames : ∀ n ∈ names, n ∈ names' ∨ ∃ i ∈ r.interfaces, n ∈ i.parents) : r.Unplaced names' fault := by
  cases h with
  | unknown hnone hn => exact .unknown hnone (hn.elim (hnames _) .inr)
  | cycle hcycle => exact .cycle hcycle

/-- Placing fails at an unknown name, or at one that led there. -/
theorem placeInterfaces_error {below placed names : List String} {fault : Fault}
    (h : r.placeInterfaces below placed names = .error fault)
    (hbelow : ∀ b ∈ below, ∀ n ∈ names, TransGen r.interfaceGraph.Linked b n) : r.Unplaced names fault := by
  fun_induction r.placeInterfaces below placed names with
  | case1 => cases h
  | case2 _ _ n rest _ ih =>
    exact (ih h fun b hb m hm => hbelow b hb m (.tail _ hm)).mono fun m hm => .inl (.tail _ hm)
  | case3 below placed n rest _ hmem =>
    cases h
    exact .cycle (hbelow n (by simpa using hmem) n (.head _))
  | case4 below placed n rest _ _ hnone =>
    cases h
    exact .unknown hnone (.inl (.head _))
  | case5 below placed n rest _ _ e he ih₁ ih₂ =>
    rcases bind_eq_error.1 h with h | ⟨placed', -, h⟩
    · have hlinks : ∀ b ∈ n :: below, ∀ m ∈ e.parents, TransGen r.interfaceGraph.Linked b m := by
        refine List.forall_mem_cons.2 ⟨fun m hm => .single (linked_interface he hm), fun b hb m hm => ?_⟩
        exact (hbelow b hb n (.head _)).tail (linked_interface he hm)
      exact (ih₁ h hlinks).mono fun m hm => .inr ⟨e, interface?_mem he, hm⟩
    · exact (ih₂ placed' h fun b hb m hm => hbelow b hb m (.tail _ hm)).mono fun m hm => .inl (.tail _ hm)

theorem interfaceOrder_error {d : Diagnostic} (h : r.interfaceOrder = .error d) :
    ∃ fault, d = fault.diagnostic ∧ r.Unplaced [] fault := by
  rw [interfaceOrder] at h
  cases hplace : r.placeInterfaces [] [] (r.interfaces.map (·.name)) with
  | ok order =>
    rw [hplace] at h
    cases h
  | error fault =>
    rw [hplace] at h
    cases h
    refine ⟨fault, rfl, ?_⟩
    cases placeInterfaces_error hplace nofun with
    | cycle hcycle => exact .cycle hcycle
    | unknown hnone hn =>
      -- all names that are asked for have entries, so an unknown one is extended
      refine .unknown hnone (.inr (hn.resolve_left fun hn => ?_))
      have hknown := interface?_isSome_iff.2 (names_interfaceGraph r ▸ hn)
      simp [hnone] at hknown

/-- The interfaces of a registry, which has each name once, can be ordered if and only if they extend known
interfaces only and none of them extends itself. The order then has every interface once and behind those it
extends. Otherwise the failure names an interface that is extended and has no entry, or one on a cycle. -/
theorem interfaceOrder_topological (hnodup : (r.interfaces.map (·.name)).Nodup) :
    ((∃ order, r.interfaceOrder = .ok order) ↔
      (∀ i ∈ r.interfaces, ∀ n ∈ i.parents, (r.interface? n).isSome = true) ∧ ∀ n, ¬r.interfaceGraph.OnCycle n) ∧
    (∀ order, r.interfaceOrder = .ok order → r.interfaceGraph.Orders order) ∧
    ∀ d, r.interfaceOrder = .error d → ∃ fault, d = fault.diagnostic ∧ r.Unplaced [] fault := by
  refine ⟨⟨?_, ?_⟩, fun _ => interfaceOrder_orders, fun _ => interfaceOrder_error⟩
  · rintro ⟨order, h⟩
    have horders := interfaceOrder_orders h
    refine ⟨fun i hi n hn => ?_, horders.acyclic⟩
    have hentry : r.interface? i.name = some i := find?_of_nodup hnodup hi
    exact interface?_isSome_iff.2 (horders.linked_mem (linked_interface hentry hn))
  · rintro ⟨hknown, hacyclic⟩
    cases h : r.interfaceOrder with
    | ok order => exact ⟨order, rfl⟩
    | error d =>
      obtain ⟨fault, -, hunplaced⟩ := interfaceOrder_error h
      cases hunplaced with
      | cycle hcycle => exact absurd hcycle (hacyclic _)
      | unknown hnone hn =>
        obtain ⟨i, hi, hn⟩ := hn.resolve_left List.not_mem_nil
        have hsome := hknown i hi _ hn
        simp [hnone] at hsome

/-- Interfaces that share an ancestor, each added before those it extends. -/
def diamondRegistry : Registry where
  interfaces :=
    [{ name := "Document", parents := ["Printed", "Stored"], isInternal := false },
      { name := "Printed", parents := ["Named"], isInternal := false },
      { name := "Stored", parents := ["Named"], isInternal := false },
      { name := "Named", parents := [], isInternal := false }]

theorem diamondRegistry_interfaceOrder :
    (diamondRegistry.interfaces.map (·.name)).Nodup ∧
      diamondRegistry.interfaceOrder = .ok ["Named", "Printed", "Stored", "Document"] ∧
      diamondRegistry.interfaceGraph.Orders ["Named", "Printed", "Stored", "Document"] ∧
      ∀ n, ¬diamondRegistry.interfaceGraph.OnCycle n := by
  have hnodup : (diamondRegistry.interfaces.map (·.name)).Nodup := by decide
  have hrun : diamondRegistry.interfaceOrder.toOption = some ["Named", "Printed", "Stored", "Document"] := by
    decide +kernel
  have hok := toOption_eq_some.1 hrun
  obtain ⟨hiff, horders, -⟩ := interfaceOrder_topological hnodup
  exact ⟨hnodup, hok, horders _ hok, (hiff.1 ⟨_, hok⟩).2⟩

end Registry

end ClassScript
