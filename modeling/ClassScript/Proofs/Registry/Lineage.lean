import ClassScript.Proofs.Registry.Names
import ClassScript.Registry.Visibility
import Mathlib.Data.List.Chain
import Mathlib.Data.List.Induction
import Mathlib.Data.List.Nodup
/-!
# Visibility along a line of ancestors

A lineage lists the entries from a class without a parent down to one of its descendants. The
visibility of a member in the last class is that of the nearest declaration, unless that one is private
to an ancestor (`Lineage.visibility?_eq`).
-/

namespace ClassScript.Registry

/-! ## What is remembered -/

/-- What the registry remembers is what a look-up gives. -/
def Remembers (r : Registry) : Prop :=
  ∀ cls member v, r.memo.lookup (cls, member) = some v →
    ∃ found, r.visibility? cls member = .ok found ∧ v = found.getD .pub

/-- A question is answered as by a look-up, whatever was asked before. -/
theorem Remembers.answer {r : Registry} (hr : r.Remembers) {cls member : String}
    {found : Option Visibility} (h : r.visibility? cls member = .ok found) :
    ((visibility cls member).run.run r).1 = .ok (found.getD .pub) := by
  rw [visibility, run_ask]
  cases hmemo : r.memo.lookup (cls, member) with
  | some v =>
    obtain ⟨found', h', rfl⟩ := hr cls member v hmemo
    rw [h] at h'
    cases h'
    rfl
  | none =>
    rw [h]
    rfl

/-! ## Lineages -/

/-- Entries that are known, the first without a parent and each the parent of the next. -/
structure Lineage (r : Registry) (entries : List ClassEntry) : Prop where
  known : ∀ e ∈ entries, r.class? e.name = some e
  root : ∀ e ∈ entries.head?, e.parent = none
  linked : entries.IsChain fun e d => d.parent = some e.name

/-- The visibility that the last of some entries to declare a member gives it. -/
def nearest? (entries : List ClassEntry) (member : String) : Option Visibility :=
  entries.reverse.findSome? fun e => ClassEntry.own? e member

theorem nearest?_concat (entries : List ClassEntry) (e : ClassEntry) (member : String) :
    nearest? (entries ++ [e]) member = (ClassEntry.own? e member).or (nearest? entries member) := by
  cases h : ClassEntry.own? e member <;> simp [nearest?, h]

namespace Lineage

variable {r : Registry} {older rest : List ClassEntry} {e p : ClassEntry}

theorem of_append (h : Lineage r (older ++ rest)) : Lineage r older where
  known x hx := h.known x (List.mem_append_left _ hx)
  root x hx := h.root x (by cases older with
    | nil => cases hx
    | cons y ys => exact hx)
  linked := h.linked.left_of_append

theorem parent_none (h : Lineage r (e :: rest)) : e.parent = none := h.root e rfl

theorem parent_some (h : Lineage r (older ++ p :: e :: rest)) : e.parent = some p.name := by
  have hlinked := h.linked.right_of_append
  rw [List.isChain_cons_cons] at hlinked
  exact hlinked.1

theorem eq_of_name (h : Lineage r older) (he : e ∈ older) (hp : p ∈ older) (hname : e.name = p.name) :
    e = p := Option.some.inj ((h.known e he).symm.trans (hname ▸ h.known p hp))

/-- No class is its own ancestor. -/
theorem nodup_names (h : Lineage r older) : (older.map (·.name)).Nodup := by
  induction older using List.reverseRecOn with
  | nil => exact .nil
  | append_singleton older e ih =>
    have hnodup := ih h.of_append
    rw [List.map_append]
    refine hnodup.append (List.nodup_singleton _) fun n hn hmem => ?_
    obtain rfl := List.mem_singleton.1 hmem
    obtain ⟨x, hx, hname⟩ := List.mem_map.1 hn
    obtain rfl : x = e := h.eq_of_name (List.mem_append_left _ hx) (by simp) hname
    -- The parent of the last entry would be a parent of an earlier one, so it would repeat as well.
    obtain ⟨above, below, rfl⟩ := List.append_of_mem hx
    obtain ⟨front, q, hq⟩ : ∃ front q, above ++ x :: below = front ++ [q] :=
      ⟨_, _, (List.dropLast_append_getLast (by simp)).symm⟩
    have hparent : x.parent = some q.name := by
      rw [hq, List.append_assoc] at h
      exact h.parent_some
    rcases List.eq_nil_or_concat above with rfl | ⟨above, p, rfl⟩
    · exact absurd (h.parent_none.symm.trans hparent) (by simp)
    · rw [List.concat_eq_append] at *
      have hparent' : x.parent = some p.name := by
        rw [List.append_assoc, List.append_assoc] at h
        exact h.parent_some
      have hpq : p.name = q.name := Option.some.inj (hparent'.symm.trans hparent)
      have hmem : q ∈ x :: below := by
        have hlast := congrArg List.getLast? hq
        rw [List.getLast?_append_of_ne_nil _ (by simp)] at hlast
        exact List.mem_of_getLast? (by simpa using hlast)
      rw [List.map_append] at hnodup
      exact List.disjoint_of_nodup_append hnodup (List.mem_map.2 ⟨p, by simp, hpq⟩)
        (List.mem_map_of_mem hmem)

/-- What a class inherits is the nearest declaration, unless it is private. -/
theorem inherited?_eq (h : Lineage r (older ++ [e])) (member : String) {seen : List String}
    (hseen : ∀ x ∈ older, x.name ∉ seen) :
    r.inherited? member seen e = .ok ((nearest? older member).filter (· != .priv)) := by
  induction older using List.reverseRecOn generalizing e seen with
  | nil =>
    rw [inherited?, h.parent_none]
    rfl
  | append_singleton older p ih =>
    have hparent : e.parent = some p.name := by
      rw [List.append_assoc] at h
      exact h.parent_some
    have hp : p.name ∉ seen := hseen p (by simp)
    have hnodup := h.of_append.nodup_names
    rw [List.map_append] at hnodup
    have hnew : ∀ x ∈ older, x.name ∉ p.name :: seen := by
      intro x hx hmem
      rcases List.mem_cons.1 hmem with heq | hmem
      · exact List.disjoint_of_nodup_append hnodup (List.mem_map_of_mem hx) (by simp [heq])
      · exact hseen x (by simp [hx]) hmem
    have hih := ih h.of_append hnew
    have hclass : r.class? p.name = some p := h.known p (by simp)
    rw [inherited?, hparent, nearest?_concat]
    simp only [List.contains_eq_mem, hp, decide_false, Bool.false_eq_true, if_false]
    split
    · next hnone => simp [hclass] at hnone
    · next e' he =>
      obtain rfl : p = e' := Option.some.inj (hclass.symm.trans he)
      split
      · next hown => simp [hown, Option.filter]
      · next v hpriv hown => simpa [hown, Option.filter] using hpriv
      · next hown => rw [hih, hown, Option.none_or]

/-- The visibility of a member in the last class of a lineage. -/
theorem visibility?_eq (h : Lineage r (older ++ [e])) (member : String) :
    r.visibility? e.name member = .ok ((ClassEntry.own? e member).or
      ((nearest? older member).filter (· != .priv))) := by
  have hclass : r.requireClass e.name = .ok e := by rw [requireClass, h.known e (by simp)]
  have hinherited : r.inherited? member [] e = .ok ((nearest? older member).filter (· != .priv)) :=
    h.inherited?_eq member fun x _ => List.not_mem_nil
  rw [visibility?, hclass]
  cases hown : ClassEntry.own? e member <;> simp [bind, Except.bind, hown, hinherited, pure, Except.pure]

/-- A member whose nearest declaration is not private has its visibility. -/
theorem answer (h : Lineage r (older ++ [e])) (hr : r.Remembers) {member : String} {v : Visibility}
    (hv : nearest? (older ++ [e]) member = some v) (hpriv : v ≠ .priv) :
    ((visibility e.name member).run.run r).1 = .ok v := by
  refine (hr.answer (h.visibility?_eq member)).trans ?_
  rw [nearest?_concat] at hv
  cases hown : ClassEntry.own? e member with
  | some u => simp_all
  | none =>
    rw [hown, Option.none_or] at hv
    simp [hv, Option.filter, bne_iff_ne.2 hpriv]

end Lineage

end ClassScript.Registry
