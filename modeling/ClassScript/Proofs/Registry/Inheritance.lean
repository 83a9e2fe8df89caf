import ClassScript.Proofs.Registry.Memo
/-!
# Visibility by inheritance

A class that does not declare a member has it as its parent has it, unless it is private there
(`visibility_inherited`). This is so for every registry, whatever unknown parents and cycles it has.

The search for a member walks up the parents and remembers where it has been. `Inherits` says what a walk without
a memory comes to, and after how many classes. As each class leads to one parent, the number is determined by the
class where the walk starts (`Inherits.unique`). So a walk that comes to an end meets no class twice, and what the
search remembers makes no difference to it (`Inherits.inherited?_eq`).
-/

namespace ClassScript

/-- The visibility of a member of an ancestor: what is private there is out of reach, so the name is free. -/
def Visibility.below : Visibility → Visibility
  | priv => pub
  | v => v

namespace Registry

variable {r : Registry} {member : String}

/-! ## The walk up the parents -/

/-- The entry of the parent of a class. -/
def parent? (r : Registry) (e : ClassEntry) : Option ClassEntry := e.parent.bind r.class?

/-- What a class has of a member from its ancestors, above so many of them that do not declare it. -/
inductive Inherits (r : Registry) (member : String) : Nat → ClassEntry → Option Visibility → Prop
  | root {e} : e.parent = none → Inherits r member 0 e none
  | declared {e a v} : r.parent? e = some a → ClassEntry.own? a member = some v →
      Inherits r member 0 e (if v = .priv then none else some v)
  | above {k e a found} : r.parent? e = some a → ClassEntry.own? a member = none →
      Inherits r member k a found → Inherits r member (k + 1) e found

/-- A walk goes on through the entry of the parent. -/
theorem inherits_iff {e a : ClassEntry} (ha : r.parent? e = some a) {k : Nat} {found : Option Visibility} :
    Inherits r member k e found ↔ match ClassEntry.own? a member with
      | some v => k = 0 ∧ found = if v = .priv then none else some v
      | none => ∃ j, k = j + 1 ∧ Inherits r member j a found := by
  constructor
  · intro h
    cases h with
    | root hp => simp [parent?, hp] at ha
    | declared ha' hv =>
      cases ha.symm.trans ha'
      simp [hv]
    | above ha' hv h =>
      cases ha.symm.trans ha'
      simp [hv, h]
  · intro h
    cases hv : ClassEntry.own? a member with
    | some v =>
      rw [hv] at h
      obtain ⟨rfl, rfl⟩ := h
      exact .declared ha hv
    | none =>
      rw [hv] at h
      obtain ⟨j, rfl, h⟩ := h
      exact .above ha hv h

/-- A class leads to one end, after one number of classes. -/
theorem Inherits.unique {k k' : Nat} {e : ClassEntry} {found found' : Option Visibility}
    (h : Inherits r member k e found) (h' : Inherits r member k' e found') : k = k' ∧ found = found' := by
  induction h generalizing k' with
  | root hp => cases h' with
    | root => exact ⟨rfl, rfl⟩
    | declared ha' | above ha' => simp [parent?, hp] at ha'
  | declared ha hv =>
    rw [inherits_iff ha, hv] at h'
    exact ⟨h'.1.symm, h'.2.symm⟩
  | above ha hv _ ih =>
    rw [inherits_iff ha, hv] at h'
    obtain ⟨j, rfl, h'⟩ := h'
    obtain ⟨rfl, rfl⟩ := ih h'
    exact ⟨rfl, rfl⟩

theorem Inherits.not_private {k : Nat} {e : ClassEntry} {found : Option Visibility}
    (h : Inherits r member k e found) : found ≠ some .priv := by
  induction h with
  | root => simp
  | @declared _ _ v => cases v <;> simp
  | above _ _ _ ih => exact ih

/-- What the search gives is where the walk ends. -/
theorem inherits_of_inherited? {seen : List String} {e : ClassEntry} {found : Option Visibility}
    (h : r.inherited? member seen e = .ok found) : ∃ k, Inherits r member k e found := by
  fun_induction inherited? r member seen e with
  | case1 seen e hp =>
    cases h
    exact ⟨0, .root hp⟩
  | case2 => cases h
  | case3 => cases h
  | case4 seen e p hp _ a ha hown =>
    cases h
    exact ⟨0, .declared (Option.bind_eq_some_iff.2 ⟨p, hp, ha⟩) hown⟩
  | case5 seen e p hp _ a ha v hpriv hown =>
    cases h
    have hend := Inherits.declared (Option.bind_eq_some_iff.2 ⟨p, hp, ha⟩) hown
    rw [if_neg hpriv] at hend
    exact ⟨0, hend⟩
  | case6 seen e p hp _ a ha hown ih =>
    obtain ⟨k, hk⟩ := ih h
    exact ⟨k + 1, .above (Option.bind_eq_some_iff.2 ⟨p, hp, ha⟩) hown hk⟩

/-- The search comes to the end of the walk, if the classes that it remembers lie farther from it. -/
theorem Inherits.inherited?_eq {k : Nat} {e : ClassEntry} {found : Option Visibility} {seen : List String}
    (h : Inherits r member k e found)
    (hseen : ∀ s ∈ seen, ∃ a j f, r.class? s = some a ∧ ClassEntry.own? a member = none ∧ k ≤ j ∧
      Inherits r member j a f) : r.inherited? member seen e = .ok found := by
  induction h generalizing seen with
  | root hp => rw [inherited?_unfold, hp]
  | @declared e a v ha hv =>
    obtain ⟨p, hp, ha⟩ := Option.bind_eq_some_iff.1 ha
    -- no class that was passed declares the member, and the parent does
    have hnew : p ∉ seen := by
      intro hmem
      obtain ⟨_, _, _, ha', hown, -⟩ := hseen p hmem
      cases ha.symm.trans ha'
      cases hv.symm.trans hown
    rw [inherited?_unfold, hp]
    simp only [List.contains_eq_mem, hnew, decide_false, Bool.false_eq_true, if_false, ha, hv]
    cases v <;> rfl
  | @above k e a found ha hv hk ih =>
    obtain ⟨p, hp, ha⟩ := Option.bind_eq_some_iff.1 ha
    -- the end is `k` classes above the parent, and more above each one that was passed
    have hnew : p ∉ seen := by
      intro hmem
      obtain ⟨_, j, _, ha', -, hle, hj⟩ := hseen p hmem
      cases ha.symm.trans ha'
      have := (hk.unique hj).1
      omega
    rw [inherited?_unfold, hp]
    simp only [List.contains_eq_mem, hnew, decide_false, Bool.false_eq_true, if_false, ha, hv]
    refine ih (List.forall_mem_cons.2 ⟨⟨a, k, found, ha, hv, le_rfl, hk⟩, fun s hs => ?_⟩)
    obtain ⟨b, j, f, hb, hown, hle, hj⟩ := hseen s hs
    exact ⟨b, j, f, hb, hown, by omega, hj⟩

theorem inherited?_eq_ok_iff {e : ClassEntry} {found : Option Visibility} :
    r.inherited? member [] e = .ok found ↔ ∃ k, Inherits r member k e found :=
  ⟨inherits_of_inherited?, fun ⟨_, h⟩ => h.inherited?_eq nofun⟩

/-! ## Look-ups -/

theorem lookUp_own {cls : String} {e : ClassEntry} {v : Visibility} (he : r.class? cls = some e)
    (hv : ClassEntry.own? e member = some v) : r.lookUp cls member = .ok v := by
  simp [lookUp, visibility?, requireClass, he, hv, bind, Except.bind, pure, Except.pure]

theorem lookUp_unknown {cls : String} (h : r.class? cls = none) :
    r.lookUp cls member = .error (Fault.unknownClass cls).diagnostic := by
  simp [lookUp, visibility?, requireClass, h, bind, Except.bind]

/-- A class that does not declare the member has it as the walk up its parents tells. -/
theorem lookUp_eq_ok_iff {cls : String} {e : ClassEntry} {v : Visibility} (he : r.class? cls = some e)
    (hown : ClassEntry.own? e member = none) :
    r.lookUp cls member = .ok v ↔ ∃ k found, Inherits r member k e found ∧ v = found.getD .pub := by
  have hlook : r.visibility? cls member = r.inherited? member [] e := by
    simp [visibility?, requireClass, he, hown, bind, Except.bind]
  rw [lookUp, hlook]
  constructor
  · intro h
    cases hfound : r.inherited? member [] e with
    | error fault =>
      rw [hfound] at h
      cases h
    | ok found =>
      rw [hfound] at h
      obtain ⟨k, hk⟩ := inherited?_eq_ok_iff.1 hfound
      exact ⟨k, found, hk, (Except.ok.inj h).symm⟩
  · rintro ⟨k, found, hk, rfl⟩
    rw [inherited?_eq_ok_iff.2 ⟨k, hk⟩]

theorem lookUp_root {cls : String} {e : ClassEntry} (he : r.class? cls = some e)
    (hown : ClassEntry.own? e member = none) (hp : e.parent = none) : r.lookUp cls member = .ok .pub :=
  (lookUp_eq_ok_iff he hown).2 ⟨0, none, .root hp, rfl⟩

/-- A class that does not declare the member has it as its parent has it, unless it is private there. -/
theorem lookUp_parent {cls p : String} {e : ClassEntry} {v : Visibility} (he : r.class? cls = some e)
    (hown : ClassEntry.own? e member = none) (hp : e.parent = some p) :
    r.lookUp cls member = .ok v ↔ ∃ w, r.lookUp p member = .ok w ∧ v = w.below := by
  rw [lookUp_eq_ok_iff he hown]
  cases ha : r.class? p with
  | none =>
    rw [lookUp_unknown ha]
    have hnone : r.parent? e = none := by simp [parent?, hp, ha]
    constructor
    · rintro ⟨_, _, h, -⟩
      cases h with
      | root hp' => cases hp.symm.trans hp'
      | declared ha' | above ha' => cases hnone.symm.trans ha'
    · rintro ⟨_, h, -⟩
      cases h
  | some a =>
    simp only [inherits_iff (Option.bind_eq_some_iff.2 ⟨p, hp, ha⟩)]
    cases hv : ClassEntry.own? a member with
    | some w => cases w <;> simp [lookUp_own ha hv, Visibility.below]
    | none =>
      -- what is found farther up is not private, so that `below` leaves it alone
      have hbelow {k found} (h : Inherits r member k a found) : (found.getD .pub).below = found.getD .pub := by
        have := h.not_private
        rcases found with _ | _ | _ | _ <;> simp_all [Visibility.below]
      simp only [lookUp_eq_ok_iff ha hv]
      constructor
      · rintro ⟨_, found, ⟨j, -, h⟩, rfl⟩
        exact ⟨_, ⟨j, found, h, rfl⟩, (hbelow h).symm⟩
      · rintro ⟨_, ⟨j, found, h, rfl⟩, rfl⟩
        exact ⟨j + 1, found, ⟨j, rfl, h⟩, hbelow h⟩

/-! ## Registries -/

/-- A registry that remembers what a look-up gives answers by a look-up. -/
theorem Remembers.reply (hr : r.Remembers) (cls : String) :
    ((visibility cls member).run.run r).1 = r.lookUp cls member := by
  have hagree := congrArg Prod.fst (visibility_agree cls member r hr).2
  rw [lookUpAnew, run_ask, lookUp_forgetful] at hagree
  rw [← hagree]
  cases r.lookUp cls member <;> rfl

/-- Whatever a registry was told and asked before, a class has a member that it declares as it declares it, first
as a property and then as a method. One that it does not declare is public if there is no parent. Else the class has
an answer if and only if its parent has one, and it is that of the parent with public in place of private. -/
theorem visibility_inherited (requests : List Request) (cls member : String) :
    let r := ((serve visibility requests).run {}).2
    let answer (cls : String) := ((visibility cls member).run.run r).1
    ∀ e, r.class? cls = some e →
      (∀ v, e.properties.lookup member = some v → answer cls = .ok v) ∧
      (∀ v, e.properties.lookup member = none → e.methods.lookup member = some v → answer cls = .ok v) ∧
      (e.properties.lookup member = none → e.methods.lookup member = none →
        (e.parent = none → answer cls = .ok .pub) ∧
        ∀ p, e.parent = some p →
          ((∃ v, answer cls = .ok v) ↔ ∃ v, answer p = .ok v) ∧
          ∀ v, answer p = .ok v → answer cls = .ok v.below) := by
  intro r answer e he
  have hanswer (c : String) : answer c = r.lookUp c member :=
    (serve_agree requests (remembers_nothing rfl)).1.reply c
  simp only [hanswer]
  refine ⟨fun v hv => ?_, fun v hnone hv => ?_, fun hproperty hmethod => ?_⟩
  · exact lookUp_own he (by simp [ClassEntry.own?, hv])
  · exact lookUp_own he (by simp [ClassEntry.own?, hnone, hv])
  · have hown : ClassEntry.own? e member = none := by simp [ClassEntry.own?, hproperty, hmethod]
    refine ⟨lookUp_root he hown, fun p hp => ⟨⟨?_, ?_⟩, fun v hv => ?_⟩⟩
    · rintro ⟨v, hv⟩
      obtain ⟨w, hw, -⟩ := (lookUp_parent he hown hp).1 hv
      exact ⟨w, hw⟩
    · rintro ⟨w, hw⟩
      exact ⟨w.below, (lookUp_parent he hown hp).2 ⟨w, hw, rfl⟩⟩
    · exact (lookUp_parent he hown hp).2 ⟨v, hv, rfl⟩

/-- A class with its private properties. -/
def guardedClass (name : String) (parent : Option String) (properties : List String) : Class where
  name
  parent := parent.map .global
  interfaces := []
  members := properties.map fun name => .property
    { name, default := none, modifiers := {}, resolved := some .priv, pos := .unknown }
  isAbstract := false
  isFinal := false
  pos := .unknown
  qualified := none
  scriptApis := none

/-- A class below one with a private property, and a question that is remembered. -/
def guardedRequests : List Request :=
  [.addClass (guardedClass "Door" (some "Lock") []) false, .addClass (guardedClass "Lock" none ["key"]) false,
    .visibility "Door" "key"]

theorem guardedRequests_answers :
    let r := ((serve visibility guardedRequests).run {}).2
    let answer (cls : String) := ((visibility cls "key").run.run r).1
    (r.class? "Door").map (·.parent) = some (some "Lock") ∧ answer "Lock" = .ok .priv ∧ answer "Door" = .ok .pub := by
  intro r answer
  have hdoor : r.class? "Door" = some ⟨"Door", some "Lock", [], [], [], [], false⟩ := by decide +kernel
  have hlock : r.class? "Lock" = some ⟨"Lock", none, [], [("key", .priv)], [], [], false⟩ := by decide +kernel
  have hprivate : answer "Lock" = .ok .priv :=
    (visibility_inherited guardedRequests "Lock" "key" _ hlock).1 .priv rfl
  have hparent := ((visibility_inherited guardedRequests "Door" "key" _ hdoor).2.2 rfl rfl).2 "Lock" rfl
  exact ⟨by rw [hdoor]; rfl, hprivate, hparent.2 .priv hprivate⟩

end Registry

end ClassScript
