import ClassScript.Proofs.Registry.Names
import ClassScript.Registry.Order
import Mathlib.Data.List.Nodup
/-!
# Orders of emission

An order holds known names only, each at most once.
-/

namespace ClassScript.Registry

/-- What holds of the names placed for the classes so far, if it holds at the start and each ancestry keeps it, holds
of the whole order. A failure is that of the ancestry of some class. -/
theorem classOrder_run {r : Registry} {P : List ClassEntry → List String → Prop} {E : Diagnostic → Prop}
    (hstart : P [] [])
    (hok : ∀ {done placed c hc ns}, P done placed → done ++ [c] <+: r.classes →
      r.ancestry placed [] c hc = .ok ns → P (done ++ [c]) (placed ++ ns))
    (herror : ∀ {done placed c hc d}, P done placed → done ++ [c] <+: r.classes →
      r.ancestry placed [] c hc = .error d → E d) :
    (∀ order, r.classOrder = .ok order → P r.classes order) ∧ ∀ d, r.classOrder = .error d → E d := by
  have hfold (cs : List {c // c ∈ r.classes}) (done : List ClassEntry) (placed : List String)
      (hsplit : r.classes = done ++ cs.map (·.1)) (hP : P done placed) (out : Result (List String))
      (h : cs.foldlM (fun placed c => do return placed ++ (← r.ancestry placed [] c.1 c.2)) placed = out) :
      (∀ order, out = .ok order → P r.classes order) ∧ ∀ d, out = .error d → E d := by
    induction cs generalizing done placed with
    | nil =>
      obtain rfl : out = .ok placed := h.symm
      rw [List.map_nil, List.append_nil] at hsplit
      refine ⟨fun order horder => ?_, nofun⟩
      cases horder
      exact hsplit ▸ hP
    | cons c cs ih =>
      have hsplit' : r.classes = done ++ [c.1] ++ cs.map (·.1) := by simpa using hsplit
      have hdone : done ++ [c.1] <+: r.classes := ⟨_, hsplit'.symm⟩
      rw [List.foldlM_cons] at h
      cases hns : r.ancestry placed [] c.1 c.2 with
      | ok ns =>
        rw [hns] at h
        exact ih _ _ hsplit' (hok hP hdone hns) h
      | error d =>
        rw [hns] at h
        obtain rfl : out = .error d := h.symm
        refine ⟨nofun, fun d' hd => ?_⟩
        cases hd
        exact herror hP hdone hns
  exact hfold r.classes.attach [] [] (by simp) hstart r.classOrder rfl

theorem ancestry_known {r : Registry} {placed below : List String} {c : ClassEntry} {hc : c ∈ r.classes}
    {ns : List String} (h : r.ancestry placed below c hc = .ok ns) :
    ∀ n ∈ ns, n ∈ r.classes.map (·.name) := by
  fun_induction r.ancestry placed below c hc generalizing ns with
  | case1 => cases h; nofun
  | case2 => cases h
  | case3 below c hc =>
    cases h
    exact List.forall_mem_singleton.2 (List.mem_map_of_mem hc)
  | case4 => cases h
  | case5 below c hc _ _ p _ e _ ih =>
    obtain ⟨older, holder, h⟩ := bind_eq_ok.1 h
    cases h
    refine List.forall_mem_append.2 ⟨ih holder, ?_⟩
    exact List.forall_mem_singleton.2 (List.mem_map_of_mem hc)

theorem classOrder_known {r : Registry} {order : List String} (h : r.classOrder = .ok order) :
    ∀ n ∈ order, n ∈ r.classes.map (·.name) := by
  refine (classOrder_run (P := fun _ placed => ∀ n ∈ placed, n ∈ r.classes.map (·.name)) nofun ?_ fun _ _ _ =>
    trivial).1 order h
  intro done placed c hc ns hplaced _ hns
  exact List.forall_mem_append.2 ⟨hplaced, ancestry_known hns⟩

theorem placeInterfaces_known {r : Registry} {below placed names out : List String}
    (h : r.placeInterfaces below placed names = .ok out)
    (hplaced : ∀ n ∈ placed, n ∈ r.interfaces.map (·.name)) :
    ∀ n ∈ out, n ∈ r.interfaces.map (·.name) := by
  fun_induction r.placeInterfaces below placed names generalizing out with
  | case1 => cases h; exact hplaced
  | case2 _ _ _ _ _ ih => exact ih h hplaced
  | case3 => cases h
  | case4 => cases h
  | case5 below placed n rest _ _ e he ih₁ ih₂ =>
    obtain ⟨placed', hparents, h⟩ := bind_eq_ok.1 h
    refine ih₂ placed' h (List.forall_mem_append.2 ⟨ih₁ hparents hplaced, ?_⟩)
    exact List.forall_mem_singleton.2 (interface?_name he ▸ List.mem_map_of_mem (interface?_mem he))

theorem interfaceOrder_known {r : Registry} {order : List String} (h : r.interfaceOrder = .ok order) :
    ∀ n ∈ order, n ∈ r.interfaces.map (·.name) :=
  placeInterfaces_known (mapError_eq_ok.1 h) nofun

/-! ## Each name once -/

/-- An ancestry repeats no name, and none of those that are placed or led here. -/
theorem ancestry_nodup {r : Registry} {placed below : List String} {c : ClassEntry} {hc : c ∈ r.classes}
    {ns : List String} (h : r.ancestry placed below c hc = .ok ns) :
    ns.Nodup ∧ ∀ n ∈ ns, n ∉ placed ∧ n ∉ below := by
  fun_induction r.ancestry placed below c hc generalizing ns with
  | case1 => cases h; exact ⟨.nil, nofun⟩
  | case2 => cases h
  | case3 below c hc hplaced hbelow =>
    cases h
    exact ⟨List.nodup_singleton _, List.forall_mem_singleton.2 ⟨by simpa using hplaced, by simpa using hbelow⟩⟩
  | case4 => cases h
  | case5 below c hc hplaced hbelow p _ e _ ih =>
    obtain ⟨older, holder, h⟩ := bind_eq_ok.1 h
    cases h
    obtain ⟨hnodup, hfresh⟩ := ih holder
    have hlast : c.name ∉ older := fun hmem => (hfresh _ hmem).2 (.head _)
    refine ⟨hnodup.append (List.nodup_singleton _) (by simpa using hlast), List.forall_mem_append.2 ⟨?_, ?_⟩⟩
    · exact fun n hn => ⟨(hfresh n hn).1, fun hmem => (hfresh n hn).2 (.tail _ hmem)⟩
    · exact List.forall_mem_singleton.2 ⟨by simpa using hplaced, by simpa using hbelow⟩

theorem classOrder_nodup {r : Registry} {order : List String} (h : r.classOrder = .ok order) :
    order.Nodup := by
  refine (classOrder_run (P := fun _ placed => placed.Nodup) .nil ?_ fun _ _ _ => trivial).1 order h
  intro done placed c hc ns hplaced _ hns
  obtain ⟨hnodup, hfresh⟩ := ancestry_nodup hns
  exact hplaced.append hnodup fun n hn hmem => (hfresh n hmem).1 hn

/-- Classes without parents stay in the order they were added. -/
theorem classOrder_roots {r : Registry} (hroots : ∀ c ∈ r.classes, c.parent = none)
    (hnodup : (r.classes.map (·.name)).Nodup) : r.classOrder = .ok (r.classes.map (·.name)) := by
  -- each class is placed alone, as none before it has its name
  have halone {done : List ClassEntry} {c : ClassEntry} (hc : c ∈ r.classes) (hdone : done ++ [c] <+: r.classes) :
      r.ancestry (done.map (·.name)) [] c hc = .ok [c.name] := by
    obtain ⟨rest, hrest⟩ := hdone
    have hnew : c.name ∉ done.map (·.name) := by
      rw [← hrest, List.append_assoc, List.map_append] at hnodup
      exact fun hmem => List.disjoint_of_nodup_append hnodup hmem (.head _)
    rw [ancestry, if_neg (by simpa using hnew), if_neg (by simp), hroots c hc]
  obtain ⟨hok, herror⟩ := classOrder_run (r := r) (P := fun done placed => placed = done.map (·.name))
    (E := fun _ => False) rfl
    (by
      rintro done _ c hc ns rfl hdone hns
      cases (halone hc hdone).symm.trans hns
      simp)
    (by
      rintro done _ c hc d rfl hdone hd
      cases (halone hc hdone).symm.trans hd)
  cases h : r.classOrder with
  | ok order => rw [hok order h]
  | error d => exact (herror d h).elim

/-- Placing interfaces repeats no name, and places none of those that led here. -/
theorem placeInterfaces_nodup {r : Registry} {below placed names out : List String}
    (h : r.placeInterfaces below placed names = .ok out) (hplaced : placed.Nodup) :
    out.Nodup ∧ ∀ n ∈ below, n ∉ placed → n ∉ out := by
  fun_induction r.placeInterfaces below placed names generalizing out with
  | case1 => cases h; exact ⟨hplaced, fun _ _ => id⟩
  | case2 _ _ _ _ _ ih => exact ih h hplaced
  | case3 => cases h
  | case4 => cases h
  | case5 below placed n rest hn hbelow e he ih₁ ih₂ =>
    obtain ⟨placed', hparents, h⟩ := bind_eq_ok.1 h
    obtain ⟨hnodup, hfresh⟩ := ih₁ hparents hplaced
    have hlast : n ∉ placed' := hfresh n (.head _) (by simpa using hn)
    obtain ⟨hout, hkept⟩ :=
      ih₂ placed' h (hnodup.append (List.nodup_singleton n) (by simpa using hlast))
    refine ⟨hout, fun m hm hmem => hkept m hm fun hmem' => ?_⟩
    rcases List.mem_append.1 hmem' with hmem' | hmem'
    · exact hfresh m (.tail _ hm) hmem hmem'
    · obtain rfl := List.mem_singleton.1 hmem'
      exact hbelow (by simpa using hm)

theorem interfaceOrder_nodup {r : Registry} {order : List String} (h : r.interfaceOrder = .ok order) :
    order.Nodup := (placeInterfaces_nodup (mapError_eq_ok.1 h) .nil).1

/-- All declarations in the order they are emitted: each once. -/
theorem orders_nodup {r : Registry} (hr : r.names.Nodup) {interfaces classes : List String}
    (hi : r.interfaceOrder = .ok interfaces) (hc : r.classOrder = .ok classes) :
    (interfaces ++ classes).Nodup := by
  refine (interfaceOrder_nodup hi).append (classOrder_nodup hc) fun n hn hmem => ?_
  exact List.disjoint_of_nodup_append hr (classOrder_known hc n hmem) (interfaceOrder_known hi n hn)

end ClassScript.Registry
