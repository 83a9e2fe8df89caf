import ClassScript.Emit.Class
import ClassScript.Proofs.Grammar.Statement
import ClassScript.Proofs.Subset
import ClassScript.ScriptApi
import Mathlib.Data.List.Nodup
/-!
# Constructors of a class

Three places pick the constructor of a class on their own: the class tells the first one, the last one
is emitted, and the script APIs come from the parameters of all. They pick the same method just if the
class has no more than one (`Class.constructors_agree_iff`). The supported subset keeps the names of all
other members apart, but any number of constructors passes (`Subset.ClassFits.insert_constructor`).
-/

namespace ClassScript

open Subset

/-! ## Constructors in order -/

/-- The constructors that a class declares, in order, with their places among its methods. -/
def Class.constructors (c : Class) : List (Method × Nat) := c.methods.zipIdx.filter (·.1.isConstructor)

namespace Class

theorem constructors_map_fst (c : Class) : c.constructors.map (·.1) = c.methods.filter Method.isConstructor := by
  have hmap := List.filter_map (f := Prod.fst) (p := Method.isConstructor) (l := c.methods.zipIdx)
  rw [List.zipIdx_map_fst] at hmap
  exact hmap.symm

/-- No two of them are at one place. -/
theorem constructors_nodup (c : Class) : c.constructors.Nodup := by
  refine List.Nodup.filter _ (List.Nodup.of_map Prod.snd ?_)
  rw [List.zipIdx_map_snd]
  exact List.nodup_range'

theorem mem_members_of_mem_constructors {c : Class} {x : Method × Nat} (h : x ∈ c.constructors) :
    .method x.1 ∈ c.members := by
  have hmethod : x.1 ∈ c.methods := List.fst_mem_of_mem_zipIdx (List.mem_filter.1 h).1
  obtain ⟨m, hm, hx⟩ := List.mem_filterMap.1 hmethod
  cases m with
  | method d => exact Option.some.inj hx ▸ hm
  | property | const | traitUse => cases hx

/-- What the three places pick: the method that a class tells to be its constructor, the one that is
emitted as it, and those whose parameters are recorded. -/
structure PicksConstructors (c : Class) : Prop where
  told : c.constructor? = c.constructors.head?.map (·.1)
  emitted : ∀ m i, c.constructors.getLast? = some (m, i) →
    ∃ body, m.body = some body ∧ ∀ ctx, Emit.emitConstructor ctx c = Emit.emitFunction ctx m body
  inherited : c.constructors.getLast? = none → ∀ ctx, Emit.emitConstructor ctx c = Emit.inheritedConstructor
  recorded : Annotate.apisOf c = (c.constructors.flatMap (·.1.params)).mapM (Annotate.apiOf c)

theorem lastConstructor?_eq (c : Class) : Emit.lastConstructor? c = c.constructors.getLast?.map (·.1) := by
  rw [← List.getLast?_map, constructors_map_fst, Emit.lastConstructor?]

end Class

theorem Subset.ClassFits.picksConstructors {c : Class} (h : ClassFits c) : c.PicksConstructors where
  told := by rw [← List.head?_map, c.constructors_map_fst, List.head?_filter, Class.constructor?]
  emitted m i hlast := by
    have hfits := h.members _ (Class.mem_members_of_mem_constructors (List.mem_of_getLast? hlast))
    cases hfits with
    | method _ hsome _ =>
      obtain ⟨body, hbody⟩ : ∃ body, m.body = some body := Option.ne_none_iff_exists'.1 hsome
      refine ⟨body, hbody, fun ctx => ?_⟩
      rw [Emit.emitConstructor, c.lastConstructor?_eq, hlast]
      simp only [Option.map_some, hbody, Option.getD_some]
  inherited hnone ctx := by
    rw [Emit.emitConstructor, c.lastConstructor?_eq, hnone]
    rfl
  recorded := by rw [Annotate.apisOf, ← c.constructors_map_fst, List.flatMap_map]

/-! ## Several constructors -/

/-- The first entry is the last one just if there is no other. -/
theorem head?_eq_getLast?_iff {α : Type} {l : List α} (h : l.Nodup) : l.head? = l.getLast? ↔ l.length ≤ 1 := by
  match l with
  | [] => simp
  | [x] => simp
  | x :: y :: rest =>
    refine iff_of_false (fun heq => ?_) (by simp)
    rw [List.head?_cons, List.getLast?_cons_cons] at heq
    exact (List.nodup_cons.1 h).1 (List.mem_of_getLast? heq.symm)

theorem eq_toList_head?_iff {α : Type} {l : List α} : l = l.head?.toList ↔ l.length ≤ 1 := by
  match l with
  | [] => simp
  | [x] => simp
  | x :: y :: rest => simp

/-- The check of members is blind to constructors, apart from what each of them is by itself. -/
theorem Subset.ClassFits.insert_constructor {c : Class} (h : ClassFits c) {m : Method}
    (hm : m.isConstructor = true) (hfits : MemberFits (.method m)) {before after : List Member}
    (hmembers : c.members = before ++ after) :
    ClassFits { c with members := before ++ .method m :: after } where
  members x hx := by
    rcases List.mem_append.1 hx with hx | hx
    · exact h.members x (hmembers ▸ List.mem_append_left _ hx)
    · rcases List.mem_cons.1 hx with rfl | hx
      · exact hfits
      · exact h.members x (hmembers ▸ List.mem_append_right _ hx)
  names := by
    have hnone : ownName? (.method m) = none := by rw [ownName?, if_pos hm]
    rw [List.filterMap_append, List.filterMap_cons_none hnone, ← List.filterMap_append, ← hmembers]
    exact h.names

/-- In a file of the subset, the constructor that a class tells, the one that is emitted for it and those
whose parameters are recorded are the same method just if the class has no more than one. All its other
members have names of their own, but the class could have any number of constructors. -/
theorem Class.constructors_agree_iff {f : SourceFile} {c : Class} (h : f.violation? = none)
    (hc : f.Contains (.cls c)) :
    c.PicksConstructors ∧
    (c.constructors.head? = c.constructors.getLast? ↔ c.constructors.length ≤ 1) ∧
    (c.constructors = c.constructors.head?.toList ↔ c.constructors.length ≤ 1) ∧
    (c.members.filterMap ownName?).Pairwise (fun n n' => lower n ≠ lower n') ∧
    ∀ m before after, m.isConstructor = true → MemberFits (.method m) → c.members = before ++ after →
      ClassFits { c with members := before ++ .method m :: after } := by
  have hpart : part? (.cls c) = none :=
    List.findSome?_eq_none_iff.1 (Option.or_eq_none_iff.1 h).2 _ (SourceFile.mem_parts_iff.2 hc)
  have hfits : ClassFits c := class_eq_none_iff.1 hpart
  exact ⟨hfits.picksConstructors, head?_eq_getLast?_iff c.constructors_nodup, eq_toList_head?_iff, hfits.names,
    fun _ _ _ hm hfit hmembers => hfits.insert_constructor hm hfit hmembers⟩

/-- The file is in the subset and has a class with a property. -/
def acceptsClass (p : Class → Bool) (f : SourceFile) : Bool :=
  f.violation?.isNone && f.parts.any fun
    | .cls c => p c
    | _ => false

theorem exists_of_acceptsClass {f : SourceFile} {p : Class → Bool} (h : acceptsClass p f = true) :
    ∃ c, f.violation? = none ∧ f.Contains (.cls c) ∧ p c = true := by
  obtain ⟨hnone, hany⟩ := Bool.and_eq_true_iff.1 h
  obtain ⟨q, hq, hp⟩ := List.any_eq_true.1 hany
  split at hp
  · next c => exact ⟨c, Option.isNone_iff_eq_none.1 hnone, SourceFile.mem_parts_iff.1 hq, hp⟩
  · cases hp

/-- A class with one constructor, whose name is written with a capital. -/
def singleText : String :=
  "<?php class A \x7b public function run() \x7b\x7d public function __Construct($x) \x7b\x7d \x7d"

theorem single_constructor_agrees : ∃ f c, SourceFile.parse "" singleText = .ok f ∧ f.violation? = none ∧
    f.Contains (.cls c) ∧ c.constructors.length = 1 ∧ c.PicksConstructors ∧
    c.constructors.head? = c.constructors.getLast? ∧ c.constructors = c.constructors.head?.toList := by
  obtain ⟨f, hparse, haccepts⟩ := SourceFile.exists_parse "" singleText String.toList_ofList
    (p := acceptsClass fun c => c.constructors.length == 1) (by decide +kernel)
  obtain ⟨c, hnone, hc, hone⟩ := exists_of_acceptsClass haccepts
  have hlength : c.constructors.length = 1 := eq_of_beq hone
  obtain ⟨hpicks, hlast, hall, -⟩ := Class.constructors_agree_iff hnone hc
  exact ⟨f, c, hparse, hnone, hc, hlength, hpicks, hlast.2 (Nat.le_of_eq hlength),
    hall.2 (Nat.le_of_eq hlength)⟩

/-- A class with two constructors. -/
def pairText : String :=
  "<?php class A \x7b public function __construct() \x7b\x7d public function __construct($x) \x7b\x7d \x7d"

/-- The class is in the subset. It tells one of its constructors, and the other one is emitted. -/
theorem second_constructor_accepted : ∃ f c, SourceFile.parse "" pairText = .ok f ∧ f.violation? = none ∧
    f.Contains (.cls c) ∧ c.constructors.length = 2 ∧
    c.constructor?.map (·.params.length) = some 0 ∧
    (Emit.lastConstructor? c).map (·.params.length) = some 1 := by
  obtain ⟨f, hparse, haccepts⟩ := SourceFile.exists_parse "" pairText String.toList_ofList
    (p := acceptsClass fun c => c.constructors.length = 2 ∧ c.constructor?.map (·.params.length) = some 0 ∧
      (Emit.lastConstructor? c).map (·.params.length) = some 1) (by decide +kernel)
  obtain ⟨c, hnone, hc, htwo⟩ := exists_of_acceptsClass haccepts
  exact ⟨f, c, hparse, hnone, hc, of_decide_eq_true htwo⟩

end ClassScript
