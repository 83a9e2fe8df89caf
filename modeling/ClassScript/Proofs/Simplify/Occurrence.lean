import ClassScript.Proofs.Simplify.Initialise
/-!
# Where variables occur

An occurrence of a variable in a part has an address: the way down to it, where the value of an assignment comes
before its target. What a part mentions are its occurrences in the order of their addresses (`lists_mentions`), so
the variables of a body that nothing gives a value come in the order of their first occurrences
(`undefinedIn_exact`).
-/

namespace ClassScript

namespace Part

/-- In the part occurs what occurs in its children, and nothing else. -/
def isTransparent : Part → Bool
  | .expr (.variable ..) | .expr (.assign _ (.variable ..) _ _) | .closure _ => false
  | _ => true

/-- The variable occurs in the part at the address: it is read or assigned, or captured by a closure. To read `this`
is no occurrence, nor is what a pass made up. Of an iteration callback counts what its body says, unless the variable
is one of its parameters; of another closure only what it captures. -/
inductive OccursAt (v : String) : Part → List Nat → Prop
  | read {pos : Position} : v ≠ "this" → OccursAt v (.expr (.var pos v)) []
  | value {pos q n s e d a} : OccursAt v (.expr e) a → OccursAt v (.expr (.assign pos (.variable q n s) e d)) (0 :: a)
  | target {pos q s e d} : OccursAt v (.expr (.assign pos (.variable q v s) e d)) [1]
  | captured {c : Closure} {i : Nat} : c.isIteration = false → (c.captures.map (·.name))[i]? = some v →
      OccursAt v (.closure c) [i]
  | callback {c : Closure} {i s a} : c.isIteration = true → v ∉ c.params.map (·.name) → c.body[i]? = some s →
      OccursAt v (.stmt s) a → OccursAt v (.closure c) (i :: a)
  | inside {p q : Part} {i a} : p.isTransparent = true → p.children[i]? = some q → OccursAt v q a →
      OccursAt v p (i :: a)

/-- The part gives the variable a value: it is assigned or caught, outside of closures. -/
inductive Defines (v : String) : Part → Prop
  | target {pos q s e d} : Defines v (.expr (.assign pos (.variable q v s) e d))
  | caught {c : Catch} : c.var = v → Defines v (.clause c)
  | inside {p q : Part} : (∀ c, p ≠ .closure c) → q ∈ p.children → Defines v q → Defines v p

end Part

/-- The variable occurs in the statements at the address. -/
def OccursIn (v : String) (ss : List Stmt) (a : List Nat) : Prop :=
  ∃ i s b, ss[i]? = some s ∧ a = i :: b ∧ (Part.stmt s).OccursAt v b

def DefinedIn (v : String) (ss : List Stmt) : Prop := ∃ s ∈ ss, (Part.stmt s).Defines v

/-! ## Names in the order of addresses -/

/-- The names of all that is at some address, in the order of the addresses. -/
def Lists (P : String → List Nat → Prop) (names : List String) : Prop :=
  ∃ l : List (List Nat × String), l.map Prod.snd = names ∧ (l.Pairwise fun x y => x.1 < y.1) ∧
    ∀ a v, (a, v) ∈ l ↔ P v a

namespace Lists

variable {P Q : String → List Nat → Prop} {names : List String}

theorem congr (h : Lists P names) (hP : ∀ v a, P v a ↔ Q v a) : Lists Q names := by
  obtain ⟨l, hl, hsorted, hmem⟩ := h
  exact ⟨l, hl, hsorted, fun a v => (hmem a v).trans (hP v a)⟩

theorem nil (hP : ∀ v a, ¬ P v a) : Lists P [] := ⟨[], rfl, .nil, fun a v => iff_of_false nofun (hP v a)⟩

theorem single (w : String) : Lists (fun v a => v = w ∧ a = []) [w] :=
  ⟨[([], w)], rfl, List.pairwise_singleton _ _, fun a v => by simp [and_comm]⟩

theorem filter (h : Lists P names) (keep : String → Bool) :
    Lists (fun v a => P v a ∧ keep v = true) (names.filter keep) := by
  obtain ⟨l, rfl, hsorted, hmem⟩ := h
  refine ⟨l.filter (keep ·.2), (List.filter_map ..).symm, hsorted.filter _, fun a v => ?_⟩
  rw [List.mem_filter, hmem]

/-- One list after the other; each entry has its place in front of the address. -/
theorem flatMap {α : Type} {xs : List α} {P : α → String → List Nat → Prop} {f : α → List String}
    (h : ∀ x ∈ xs, Lists (P x) (f x)) :
    Lists (fun v a => ∃ i x b, xs[i]? = some x ∧ a = i :: b ∧ P x v b) (xs.flatMap f) := by
  -- the places of the tail are counted from the one behind the head
  suffices from_place : ∀ n, Lists (fun v a => ∃ i x b, xs[i]? = some x ∧ a = (n + i) :: b ∧ P x v b)
      (xs.flatMap f) by simpa using from_place 0
  induction xs with
  | nil => exact fun n => .nil (by simp)
  | cons x xs ih =>
    intro n
    obtain ⟨hx, hxs⟩ := List.forall_mem_cons.1 h
    obtain ⟨l, hl, hsorted, hmem⟩ := hx
    obtain ⟨l', hl', hsorted', hmem'⟩ := ih hxs (n + 1)
    refine ⟨l.map (fun y => (n :: y.1, y.2)) ++ l', ?_, List.pairwise_append.2 ⟨?_, hsorted', ?_⟩, fun a v => ?_⟩
    · rw [List.map_append, List.map_map, hl', List.flatMap_cons, ← hl]
      rfl
    · exact List.pairwise_map.2 (hsorted.imp fun hlt => List.cons_lt_cons_self.2 hlt)
    · rintro _ hy ⟨a, v⟩ hz
      obtain ⟨y, -, rfl⟩ := List.mem_map.1 hy
      obtain ⟨i, _, b, -, rfl, -⟩ := (hmem' a v).1 hz
      exact List.cons_lt_cons_iff.2 (.inl (by omega))
    · rw [List.mem_append, hmem']
      constructor
      · rintro (hy | ⟨i, y, b, hy, rfl, hP⟩)
        · obtain ⟨⟨b, w⟩, hb, hy⟩ := List.mem_map.1 hy
          cases hy
          exact ⟨0, x, b, rfl, rfl, (hmem b _).1 hb⟩
        · exact ⟨i + 1, y, b, hy, by rw [Nat.add_right_comm, Nat.add_assoc], hP⟩
      · rintro ⟨_ | i, y, b, hy, rfl, hP⟩
        · cases hy
          exact .inl (List.mem_map.2 ⟨(b, v), (hmem b v).2 hP, rfl⟩)
        · exact .inr ⟨i, y, b, hy, by rw [Nat.add_right_comm, Nat.add_assoc], hP⟩

theorem mem_iff (h : Lists P names) {v : String} : v ∈ names ↔ ∃ a, P v a := by
  obtain ⟨l, rfl, -, hmem⟩ := h
  simp only [← hmem, List.mem_map, Prod.exists, exists_eq_right]

end Lists

/-- Names without repetitions are in the order of their first places. -/
theorem pairwise_eraseDups : (l : List (List Nat × String)) → (l.Pairwise fun x y => x.1 < y.1) →
    (l.map Prod.snd).eraseDups.Pairwise fun v w => ∃ a, (a, v) ∈ l ∧ ∀ b, (b, w) ∈ l → a < b
  | [], _ => .nil
  | (a, v) :: l, h => by
    obtain ⟨hfirst, hsorted⟩ := List.pairwise_cons.1 h
    let rest := l.filter fun x => !x.2 == v
    have hrest := pairwise_eraseDups rest (hsorted.filter _)
    have hother {b : List Nat} {w : String} (hw : w ∈ (rest.map Prod.snd).eraseDups) (hb : (b, w) ∈ (a, v) :: l) :
        (b, w) ∈ rest := by
      obtain ⟨x, hx, rfl⟩ := List.mem_map.1 (List.mem_eraseDups.1 hw)
      obtain ⟨-, hne⟩ := List.mem_filter.1 hx
      cases hb with
      | head => simp at hne
      | tail _ hb => exact List.mem_filter.2 ⟨hb, hne⟩
    rw [List.map_cons, List.eraseDups_cons, List.filter_map]
    refine List.pairwise_cons.2 ⟨fun w hw => ⟨a, .head _, fun b hb => ?_⟩, hrest.imp_of_mem fun _ hw => ?_⟩
    · exact hfirst _ (List.mem_filter.1 (hother hw hb)).1
    · rintro ⟨b, hb, hlt⟩
      exact ⟨b, .tail _ (List.mem_filter.1 hb).1, fun c hc => hlt c (hother hw hc)⟩
termination_by l => l.length
decreasing_by exact Nat.lt_succ_of_le (List.length_filter_le _ l)

theorem Lists.firsts {P : String → List Nat → Prop} {names : List String} (h : Lists P names) :
    (firsts names).Pairwise fun v w => ∃ a, P v a ∧ ∀ b, P w b → a < b := by
  obtain ⟨l, rfl, hsorted, hmem⟩ := h
  refine (pairwise_eraseDups l hsorted).imp ?_
  rintro v w ⟨a, ha, hlt⟩
  exact ⟨a, (hmem a v).1 ha, fun b hb => hlt b ((hmem b w).2 hb)⟩

/-! ## What parts mention and define -/

namespace Simplify.Usage

theorem mentions_concat (us : List Usage) : (concat us).mentions = us.flatMap Usage.mentions := by
  induction us with
  | nil => rfl
  | cons u us ih => exact congrArg (u.mentions ++ ·) ih

theorem occursAt_iff_of_transparent {v : String} {p : Part} {a : List Nat} (hp : p.isTransparent = true) :
    p.OccursAt v a ↔ ∃ i q b, p.children[i]? = some q ∧ a = i :: b ∧ q.OccursAt v b := by
  constructor
  · intro h
    cases h with
    | inside _ hq h => exact ⟨_, _, _, hq, rfl, h⟩
    | _ => cases hp
  · rintro ⟨i, q, b, hq, rfl, h⟩
    exact .inside hp hq h

theorem lists_variable (pos : Position) (n : String) (synthetic : Bool) (below : List Usage) :
    Lists (fun v a => (Part.expr (.variable pos n synthetic)).OccursAt v a)
      (ofPart (.expr (.variable pos n synthetic)) below).mentions := by
  simp only [ofPart]
  split
  · next hskip =>
    refine .nil fun v a h => ?_
    cases h with
    | read hv => simp [hv] at hskip
    | inside hp => cases hp
  · next hcounts =>
    obtain ⟨rfl, hn⟩ : synthetic = false ∧ n ≠ "this" := by simpa using hcounts
    refine (Lists.single n).congr fun v a => ⟨?_, fun h => ?_⟩
    · rintro ⟨rfl, rfl⟩
      exact .read hn
    · cases h with
      | read => exact ⟨rfl, rfl⟩
      | inside hp => cases hp

theorem lists_assign {pos q : Position} {n : String} {synthetic : Bool} {e : Expr} {d : Option Bool}
    {names : List String} (h : Lists (fun v a => (Part.expr e).OccursAt v a) names) :
    Lists (fun v a => (Part.expr (.assign pos (.variable q n synthetic) e d)).OccursAt v a) (names ++ [n]) := by
  -- the value stands at the first place, the target at the second
  let places : List ((String → List Nat → Prop) × List String) :=
    [(fun v a => (Part.expr e).OccursAt v a, names), (fun v a => v = n ∧ a = [], [n])]
  have hplaces : ∀ x ∈ places, Lists x.1 x.2 :=
    List.forall_mem_cons.2 ⟨h, List.forall_mem_singleton.2 (.single n)⟩
  have hnames : places.flatMap Prod.snd = names ++ [n] := by simp [places]
  refine hnames ▸ (Lists.flatMap hplaces).congr fun v a => ⟨?_, fun hocc => ?_⟩
  · rintro ⟨_ | _ | i, x, b, hx, rfl, hocc⟩
    · cases hx
      exact .value hocc
    · cases hx
      obtain ⟨rfl, rfl⟩ := hocc
      exact .target
    · cases hx
  · cases hocc with
    | value hocc => exact ⟨0, _, _, rfl, rfl, hocc⟩
    | target => exact ⟨1, _, _, rfl, rfl, rfl, rfl⟩
    | inside hp => cases hp

theorem lists_callback {c : Closure} (hc : c.isIteration = true)
    (h : ∀ s ∈ c.body, Lists (fun v a => (Part.stmt s).OccursAt v a) ((Part.stmt s).fold ofPart).mentions) :
    Lists (fun v a => (Part.closure c).OccursAt v a)
      ((c.body.flatMap fun s => ((Part.stmt s).fold ofPart).mentions).filter fun n => c.params.all (·.name != n)) := by
  refine ((Lists.flatMap h).filter _).congr fun v a => ⟨?_, fun hocc => ?_⟩
  · rintro ⟨⟨i, s, b, hs, rfl, hocc⟩, hparams⟩
    exact .callback hc (by simpa using hparams) hs hocc
  · cases hocc with
    | captured hc' => exact absurd (hc'.symm.trans hc) nofun
    | callback _ hparams hs hocc => exact ⟨⟨_, _, _, hs, rfl, hocc⟩, by simpa using hparams⟩
    | inside hp => cases hp

theorem lists_captures {c : Closure} (hc : c.isIteration = false) :
    Lists (fun v a => (Part.closure c).OccursAt v a) (c.captures.map (·.name)) := by
  have h := Lists.flatMap fun n (_ : n ∈ c.captures.map (·.name)) => Lists.single n
  rw [List.flatMap_singleton'] at h
  refine h.congr fun v a => ⟨?_, fun hocc => ?_⟩
  · rintro ⟨i, n, _, hn, rfl, rfl, rfl⟩
    exact .captured hc hn
  · cases hocc with
    | captured _ hn => exact ⟨_, _, _, hn, rfl, rfl, rfl⟩
    | callback hc' => exact absurd (hc'.symm.trans hc) nofun
    | inside hp => cases hp

/-- What a part mentions are the variables that occur in it, in the order of their addresses. -/
theorem lists_mentions (p : Part) : Lists (fun v a => p.OccursAt v a) (p.fold ofPart).mentions := by
  induction p using Part.induction with
  | step p ih =>
    have hchildren (hp : p.isTransparent = true) :
        Lists (fun v a => p.OccursAt v a) (concat (p.children.map (·.fold ofPart))).mentions := by
      rw [mentions_concat, List.flatMap_map]
      exact (Lists.flatMap ih).congr fun v a => (occursAt_iff_of_transparent hp).symm
    rw [Part.fold_eq]
    cases p with
    | expr e =>
      cases e with
      | «variable» => exact lists_variable ..
      | assign pos t e d =>
        cases t with
        | «variable» q n s =>
          have hvalue := ih (.expr e) (.tail _ (.head _))
          rw [← List.append_nil (Usage.mentions _)] at hvalue
          exact lists_assign hvalue
        | _ => exact hchildren rfl
      | _ => exact hchildren rfl
    | closure c =>
      cases hc : c.isIteration with
      | true =>
        have hbody := lists_callback hc fun s hs => ih (.stmt s) (List.mem_append_right _ (List.mem_map_of_mem hs))
        simpa only [ofPart, hc, if_true, Part.children, List.map_append, List.drop_left', List.length_map,
          mentions_concat, Part.stmts, List.flatMap_map, List.map_map, Function.comp_apply] using hbody
      | false => simpa only [ofPart, hc, Bool.false_eq_true, if_false] using lists_captures hc
    | _ => exact hchildren rfl

theorem not_defines_variable {v : String} (pos : Position) (n : String) (synthetic : Bool) :
    ¬ (Part.expr (.variable pos n synthetic)).Defines v := by
  intro h
  cases h with
  | inside _ hq => cases hq

theorem defines_assign {v : String} {pos q : Position} {n : String} {synthetic : Bool} {e : Expr} {d : Option Bool} :
    (Part.expr (.assign pos (.variable q n synthetic) e d)).Defines v ↔ (Part.expr e).Defines v ∨ v = n := by
  constructor
  · intro h
    cases h with
    | target => exact .inr rfl
    | inside _ hq h =>
      rcases hq with _ | ⟨_, _ | ⟨_, ⟨⟩⟩⟩
      · exact (not_defines_variable _ _ _ h).elim
      · exact .inl h
  · rintro (h | rfl)
    · exact .inside nofun (.tail _ (.head _)) h
    · exact .target

theorem defines_clause {v : String} {c : Catch} :
    (Part.clause c).Defines v ↔ v = c.var ∨ ∃ q ∈ (Part.clause c).children, q.Defines v := by
  constructor
  · intro h
    cases h with
    | caught hv => exact .inl hv.symm
    | inside _ hq h => exact .inr ⟨_, hq, h⟩
  · rintro (rfl | ⟨q, hq, h⟩)
    · exact .caught rfl
    · exact .inside nofun hq h

/-- What a part defines is what it gives a value. -/
theorem mem_defines {v : String} (p : Part) : v ∈ (p.fold ofPart).defines ↔ p.Defines v := by
  induction p using Part.induction with
  | step p ih =>
    have hbelow : v ∈ (concat (p.children.map (·.fold ofPart))).defines ↔ ∃ q ∈ p.children, q.Defines v := by
      simp only [mem_defines_concat, List.mem_map, exists_exists_and_eq_and]
      exact exists_congr fun q => and_congr_right fun hq => ih q hq
    have hchildren (hp : p.isTransparent = true) (hclause : ∀ c, p ≠ .clause c) :
        v ∈ (concat (p.children.map (·.fold ofPart))).defines ↔ p.Defines v := by
      refine hbelow.trans ⟨fun ⟨q, hq, h⟩ => .inside (fun c hc => by cases hc; cases hp) hq h, fun h => ?_⟩
      cases h with
      | target => cases hp
      | caught => exact absurd rfl (hclause _)
      | inside _ hq h => exact ⟨_, hq, h⟩
    rw [Part.fold_eq]
    cases p with
    | expr e =>
      cases e with
      | «variable» pos n s =>
        refine iff_of_false (fun h => ?_) (not_defines_variable pos n s)
        simp only [ofPart] at h
        split at h <;> cases h
      | assign pos t e d =>
        cases t with
        | «variable» q n s =>
          rw [defines_assign, ← ih (.expr e) (.tail _ (.head _))]
          simp [ofPart, append, concat, Part.children, Part.ofExpr]
        | _ => exact hchildren rfl (by rintro _ ⟨⟩)
      | _ => exact hchildren rfl (by rintro _ ⟨⟩)
    | closure c =>
      refine iff_of_false (fun h => ?_) fun h => ?_
      · simp only [ofPart] at h
        split at h <;> cases h
      · cases h with
        | inside hp => exact hp c rfl
    | clause c =>
      rw [defines_clause, ← hbelow]
      exact List.mem_cons
    | _ => exact hchildren rfl (by rintro _ ⟨⟩)

end Simplify.Usage

/-! ## Variables that nothing gives a value -/

namespace Simplify

/-- The variables that occur in a body without a value: each once, in the order of their first occurrences. -/
structure Undefined (bound : List String) (body : List Stmt) (names : List String) : Prop where
  mem : ∀ v, v ∈ names ↔ (∃ a, OccursIn v body a) ∧ v ∉ bound ∧ ¬ DefinedIn v body
  once : names.Nodup
  ordered : names.Pairwise fun v w => ∃ a, OccursIn v body a ∧ ∀ b, OccursIn w body b → a < b

theorem lists_usage (body : List Stmt) : Lists (fun v a => OccursIn v body a) (usage body).mentions := by
  rw [usage, Usage.mentions_concat, Part.stmts, List.map_map, List.flatMap_map]
  exact Lists.flatMap fun s _ => Usage.lists_mentions (.stmt s)

theorem mem_defines_iff {v : String} {body : List Stmt} : v ∈ (usage body).defines ↔ DefinedIn v body :=
  mem_defines_usage.trans (exists_congr fun s => and_congr_right fun _ => Usage.mem_defines (.stmt s))

theorem undefinedIn_undefined (bound : List String) (body : List Stmt) :
    Undefined bound body (undefinedIn bound body) := by
  have hlists := lists_usage body
  have hordered := hlists.firsts.filter fun name => !(bound.contains name || (usage body).defines.contains name)
  refine ⟨fun v => ?_, hordered.imp fun ⟨a, ha, hlt⟩ h => ?_, hordered⟩
  · rw [undefinedIn, List.mem_filter, firsts, List.mem_eraseDups, hlists.mem_iff, ← mem_defines_iff]
    simp
  · cases h
    exact List.lt_irrefl a (hlt a ha)

end Simplify

end ClassScript
