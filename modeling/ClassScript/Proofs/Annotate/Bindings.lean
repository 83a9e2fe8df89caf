import ClassScript.Annotate
import ClassScript.Proofs.Simplify.Guard
import ClassScript.Proofs.Simplify.Initialise
import ClassScript.Proofs.Tree.Outline
/-!
# What binds a variable

Catch clauses and assignments bind the variables of a function. The pass for declarations goes
through the bindings of a function in source order and marks the assignments by what was bound
before (`declarations_binds`); nothing else of the tree changes.
-/

namespace ClassScript

/-- What binds a variable: a catch clause, or an assignment with its mark. An assignment to `$this`
or a made-up variable binds nothing. -/
inductive Binding where
  | caught (name : String)
  | assigned (name : String) (declares : Option Bool)
  | unbound (name : String) (declares : Option Bool)
deriving DecidableEq

namespace Binding

/-- The variable that is bound. -/
def names : Binding → List String
  | caught n | assigned n _ => [n]
  | unbound .. => []

/-- The mark of an assignment. -/
def mark? : Binding → Option (Option Bool)
  | caught _ => none
  | assigned _ d | unbound _ d => some d

/-- The binding that an assignment to a target is. -/
def ofTarget (d : Option Bool) : Expr → List Binding
  | .variable p n s => [if (Annotate.declarable? (.variable p n s)).isSome then assigned n d else unbound n d]
  | _ => []

/-- The binding that an expression itself is. -/
def ofExpr : Expr → List Binding
  | .assign _ t _ d => ofTarget d t
  | _ => []

theorem ofExpr_bare (e : Expr) : ofExpr e.bare = ofExpr e := by
  cases e with
  | assign p t v d => cases t <;> rfl
  | _ => rfl

/-- The bindings of a part from those of its children; functions bind for themselves. -/
def ofPart (p : Part) (below : List (List Binding)) : List Binding :=
  match p with
  | .expr e => below.flatten ++ ofExpr e
  | .clause c => caught c.var :: below.flatten
  | .closure _ | .method _ => []
  | _ => below.flatten

end Binding

namespace Part

/-- What a part binds in the function around it, in source order. -/
def bindings (p : Part) : List Binding := p.fold Binding.ofPart

theorem bindings_eq (p : Part) : p.bindings = Binding.ofPart p (p.children.map bindings) := fold_eq _ p

/-- What a function binds. -/
def ownBindings (p : Part) : List Binding := p.children.flatMap bindings

end Part

/-! ## Faces -/

namespace Part

/-- A part without visibility, type and script APIs. The members of a class do not count. -/
def unstamp : Part → Part
  | .method m => .method { m with resolved := none }
  | .param p => .param { p with type := none }
  | .cls c => .cls { c with members := [], scriptApis := none }
  | .iface i => .iface { i with members := [] }
  | p => p

/-- A part without the mark of an assignment. -/
def unmark : Part → Part
  | .expr (.assign p t v _) => .expr (.assign p t v none)
  | p => p

def unstamped (p : Part) : Part := p.bare.unstamp

def unmarked (p : Part) : Part := p.unstamped.unmark

end Part

/-! ## Marks -/

namespace Binding

/-- The bindings with each assignment marked by whether its variable is new; `known` are not. -/
def marked (known : List String) : List Binding → List Binding
  | [] => []
  | caught n :: rest => caught n :: marked (n :: known) rest
  | assigned n d :: rest => assigned n (d.or (some (!known.contains n))) :: marked (n :: known) rest
  | unbound n d :: rest => unbound n d :: marked known rest

attribute [local simp] marked

/-- What is known behind bindings. -/
def knownBehind (known : List String) (bs : List Binding) : List String :=
  bs.foldl (fun known b => b.names ++ known) known

theorem marked_append (known : List String) (bs cs : List Binding) :
    marked known (bs ++ cs) = marked known bs ++ marked (knownBehind known bs) cs := by
  induction bs generalizing known with
  | nil => rfl
  | cons b bs ih => cases b <;> exact congrArg _ (ih _)

/-- No assignment is marked yet. -/
def Fresh (bs : List Binding) : Prop := ∀ n d, assigned n d ∈ bs → d = none

theorem Fresh.tail {b : Binding} {bs : List Binding} (h : Fresh (b :: bs)) : Fresh bs :=
  fun n d hd => h n d (.tail _ hd)

theorem caught_mem_marked {known : List String} {bs : List Binding} {v : String} :
    caught v ∈ marked known bs ↔ caught v ∈ bs := by
  induction bs generalizing known with
  | nil => rfl
  | cons b bs ih => cases b <;> simp [ih]

theorem assigned_mem_marked {known : List String} {bs : List Binding} {v : String} :
    (∃ d, assigned v d ∈ marked known bs) ↔ ∃ d, assigned v d ∈ bs := by
  induction bs generalizing known with
  | nil => rfl
  | cons b bs ih => cases b <;> simp [exists_or, ih]

/-- What is marked already stays as it is. -/
theorem marked_eq_self {known : List String} {bs : List Binding}
    (h : ∀ n d, assigned n d ∈ bs → d.isSome = true) : marked known bs = bs := by
  induction bs generalizing known with
  | nil => rfl
  | cons b bs ih =>
    have hbs := @ih (b.names ++ known) fun n d hd => h n d (.tail _ hd)
    cases b with
    | caught n => exact congrArg _ hbs
    | assigned n d =>
      obtain ⟨d, rfl⟩ := Option.isSome_iff_exists.1 (h n d (.head _))
      exact congrArg _ hbs
    | unbound n d => exact congrArg _ hbs

/-- A variable that is known is not declared again. -/
theorem count_marked_of_known {known : List String} {bs : List Binding} (h : Fresh bs) {v : String}
    (hv : v ∈ known) : (marked known bs).count (assigned v (some true)) = 0 := by
  induction bs generalizing known with
  | nil => rfl
  | cons b bs ih =>
    have hbs := ih h.tail (List.mem_append_right b.names hv)
    cases b with
    | caught n | unbound n d => rw [marked, List.count_cons_of_ne (by nofun)]; exact hbs
    | assigned n d =>
      obtain rfl := h n d (.head _)
      have hne : assigned n (some (!known.contains n)) ≠ assigned v (some true) := by
        intro heq
        obtain ⟨rfl, hnew⟩ := assigned.inj heq
        simp [hv] at hnew
      rw [marked, Option.none_or, List.count_cons_of_ne hne]
      exact hbs

theorem count_marked_le_one {known : List String} {bs : List Binding} (h : Fresh bs) (v : String) :
    (marked known bs).count (assigned v (some true)) ≤ 1 := by
  induction bs generalizing known with
  | nil => exact Nat.zero_le _
  | cons b bs ih =>
    cases b with
    | caught n | unbound n d => rw [marked, List.count_cons_of_ne (by nofun)]; exact ih h.tail
    | assigned n d =>
      by_cases hn : n = v
      · have hrest : (marked (n :: known) bs).count (assigned v (some true)) = 0 :=
          count_marked_of_known h.tail (by simp [hn])
        rw [marked, List.count_cons, hrest]
        split <;> omega
      · rw [marked, List.count_cons_of_ne fun heq => hn (assigned.inj heq).1]
        exact ih h.tail

/-- A variable that is assigned, but bound in no other way, is declared once. -/
theorem count_marked_eq_one {known : List String} {bs : List Binding} (h : Fresh bs) {v : String}
    (hknown : v ∉ known) (hcaught : caught v ∉ bs) (hassigned : ∃ d, assigned v d ∈ bs) :
    (marked known bs).count (assigned v (some true)) = 1 := by
  induction bs generalizing known with
  | nil => obtain ⟨_, ⟨⟩⟩ := hassigned
  | cons b bs ih =>
    have hcaught' : caught v ∉ bs := fun hv => hcaught (.tail _ hv)
    obtain ⟨d', hd'⟩ := hassigned
    cases b with
    | caught n =>
      have hn : v ≠ n := by rintro rfl; exact hcaught (.head _)
      rw [marked, List.count_cons_of_ne (by nofun)]
      exact ih h.tail (by simp [hn, hknown]) hcaught' ⟨d', by simpa using hd'⟩
    | unbound n d =>
      rw [marked, List.count_cons_of_ne (by nofun)]
      exact ih h.tail hknown hcaught' ⟨d', by simpa using hd'⟩
    | assigned n d =>
      by_cases hn : n = v
      · subst hn
        have hrest : (marked (n :: known) bs).count (assigned n (some true)) = 0 :=
          count_marked_of_known h.tail (.head _)
        obtain rfl := h n d (.head _)
        have hnew : (!known.contains n) = true := by simpa using hknown
        rw [marked, Option.none_or, hnew, List.count_cons_self, hrest]
      · rw [marked, List.count_cons_of_ne fun heq => hn (assigned.inj heq).1]
        refine ih h.tail (by simp [hknown, Ne.symm hn]) hcaught' ⟨d', ?_⟩
        simpa [Ne.symm hn] using hd'

/-- The bindings behind the pass; nothing is marked outside of functions. -/
def markedIn (known : Annotate.Known) (bs : List Binding) : List Binding :=
  match known with
  | none => bs
  | some known => marked known bs

def behind (known : Annotate.Known) (bs : List Binding) : Annotate.Known :=
  known.map (knownBehind · bs)

theorem markedIn_append (known : Annotate.Known) (bs cs : List Binding) :
    markedIn known (bs ++ cs) = markedIn known bs ++ markedIn (behind known bs) cs := by
  cases known with
  | none => rfl
  | some known => exact marked_append known bs cs

theorem behind_append (known : Annotate.Known) (bs cs : List Binding) :
    behind known (bs ++ cs) = behind (behind known bs) cs := by
  cases known with
  | none => rfl
  | some known => exact congrArg some List.foldl_append

theorem markedIn_nil (known : Annotate.Known) : markedIn known [] = [] := by cases known <;> rfl

theorem behind_nil (known : Annotate.Known) : behind known [] = known := by cases known <;> rfl

end Binding

namespace Annotate

/-! ## One assignment -/

theorem declarable?_eq_some {t : Expr} {n : String} (h : declarable? t = some n) :
    n ≠ "this" ∧ ∃ p, t = .var p n := by
  unfold declarable? at h
  split at h
  · next p m =>
    split at h
    · cases h
    · next hm =>
      cases h
      exact ⟨by simpa using hm, p, rfl⟩
  · cases h

theorem declarable?_var {n : String} (hn : n ≠ "this") (p : Position) :
    declarable? (.var p n) = some n := by
  rw [declarable?, if_neg (by simpa using hn)]

/-- In a function an assignment to a variable is marked and counts; nothing else changes. -/
theorem markAssignment_cases (e : Expr) (s : Known) :
    (∃ p t v d n known, e = .assign p t v d ∧ declarable? t = some n ∧ s = some known ∧
      (markAssignment e).run s =
        (.assign p t v (d.or (some (!known.contains n))), some (n :: known))) ∨
    ((s = none ∨ ∀ p t v d, e = .assign p t v d → declarable? t = none) ∧
      (markAssignment e).run s = (e, s)) := by
  cases e with
  | assign p t v d =>
    cases s with
    | none => exact .inr ⟨.inl rfl, rfl⟩
    | some known =>
      cases ht : declarable? t with
      | none =>
        refine .inr ⟨.inr ?_, by simp [markAssignment, ht]; rfl⟩
        rintro _ _ _ _ ⟨⟩
        exact ht
      | some n =>
        exact .inl ⟨p, t, v, d, n, known, rfl, ht, rfl, by simp [markAssignment, ht]; rfl⟩
  | _ => exact .inr ⟨.inr (by rintro _ _ _ _ ⟨⟩), rfl⟩

/-- What the pass does to an expression: its own binding is marked and counts. -/
structure MarksOwn (known : Known) (e e' : Expr) (known' : Known) : Prop where
  binding : Binding.ofExpr e' = Binding.markedIn known (Binding.ofExpr e)
  behind : known' = Binding.behind known (Binding.ofExpr e)
  children : (Part.expr e').children = (Part.expr e).children
  face : (Part.expr e').unmarked = (Part.expr e).unmarked
  stub : e'.stub = e.stub

theorem markAssignment_marks (e : Expr) (known : Known) :
    MarksOwn known e ((markAssignment e).run known).1 ((markAssignment e).run known).2 := by
  rcases markAssignment_cases e known with ⟨p, t, v, d, n, names, rfl, ht, rfl, hrun⟩ | ⟨hnone, hrun⟩
  · have hown (d : Option Bool) : Binding.ofExpr (.assign p t v d) = [.assigned n d] := by
      obtain ⟨-, q, rfl⟩ := declarable?_eq_some ht
      simp [Binding.ofExpr, Binding.ofTarget, ht]
    rw [hrun]
    exact ⟨by rw [hown, hown]; rfl, by rw [hown]; rfl, rfl, rfl, rfl⟩
  · rw [hrun]
    rcases hnone with rfl | hnone
    · exact ⟨rfl, rfl, rfl, rfl, rfl⟩
    · have hown : Binding.ofExpr e = [] ∨ ∃ n d, Binding.ofExpr e = [.unbound n d] := by
        cases e with
        | assign p t v d =>
          have ht := hnone _ _ _ _ rfl
          cases t with
          | «variable» => exact .inr ⟨_, _, congrArg (fun b => [b]) (if_neg (by rw [ht]; nofun))⟩
          | _ => exact .inl rfl
        | _ => exact .inl rfl
      rcases hown with hown | ⟨n, d, hown⟩
      · exact ⟨by rw [hown, Binding.markedIn_nil], by rw [hown, Binding.behind_nil], rfl, rfl, rfl⟩
      · exact ⟨by rw [hown]; cases known <;> rfl, by rw [hown]; cases known <;> rfl, rfl, rfl, rfl⟩

/-! ## The pass -/

/-- What the pass does to parts: what they bind is marked and counts, and the functions in them are
marked on their own. -/
structure Binds (known : Known) (p : Part) (ps : List Part) (known' : Known) : Prop
    extends Outlined Part.unmarked known p ps known' where
  marked : ps.flatMap Part.bindings = Binding.markedIn known p.bindings
  behind : known' = Binding.behind known p.bindings
  functions : ∀ p' ∈ ps, ∀ q' ∈ p'.all, q'.takesParams = true → ∃ q ∈ p.all,
    q'.outline Part.unmarked = q.outline Part.unmarked ∧
      q'.ownBindings = Binding.marked q.bound q.ownBindings

/-- What the pass does to parts one after the other. -/
structure BindsAll (known : Known) (ps ps' : List Part) (known' : Known) : Prop where
  marked : ps'.flatMap Part.bindings = Binding.markedIn known (ps.flatMap Part.bindings)
  behind : known' = Binding.behind known (ps.flatMap Part.bindings)
  functions : ∀ p' ∈ ps', ∀ q' ∈ p'.all, q'.takesParams = true → ∃ p ∈ ps, ∃ q ∈ p.all,
    q'.outline Part.unmarked = q.outline Part.unmarked ∧
      q'.ownBindings = Binding.marked q.bound q.ownBindings

theorem BindsAll.ofChunks {known known' : Known} {ps ps' : List Part}
    (h : Chunks Binds known ps ps' known') : BindsAll known ps ps' known' := by
  induction h with
  | nil => exact ⟨(Binding.markedIn_nil _).symm, (Binding.behind_nil _).symm, nofun⟩
  | @cons known _ _ p ps qs qs' h _ ih =>
    refine ⟨?_, ?_, fun p' hp' q' hq' hfun => ?_⟩
    · rw [List.flatMap_append, h.marked, ih.marked, List.flatMap_cons, Binding.markedIn_append, h.behind]
    · rw [ih.behind, h.behind, List.flatMap_cons, Binding.behind_append]
    · rcases List.mem_append.1 hp' with hp' | hp'
      · exact ⟨p, .head _, h.functions p' hp' q' hq' hfun⟩
      · obtain ⟨r, hr, hq⟩ := ih.functions p' hp' q' hq' hfun
        exact ⟨r, .tail _ hr, hq⟩

theorem Binds.keepsStubs : Change.KeepsStubs Binds := fun h => h.stub rfl

/-- A part that has what the rebuilt one has below it. -/
theorem Binds.ofRebuilt {known known₁ known₂ known' : Known} {p p' q : Part}
    (h : Rebuilt Binds known₁ p p' known₂) (hchildren : q.children = p'.children)
    (hface : q.unmarked = p'.unmarked) (hstub : q.stub = p'.stub)
    (hmarked : q.bindings = Binding.markedIn known p.bindings)
    (hbehind : known' = Binding.behind known p.bindings)
    (hhead : q.takesParams = true → q.ownBindings = Binding.marked p.bound p.ownBindings) :
    Binds known p [q] known' := by
  have hbare := h.bare_eq Binds.keepsStubs
  have hbelow := BindsAll.ofChunks h.children
  have houtline : q.outline Part.unmarked = p.outline Part.unmarked := by
    refine Part.outline_eq_iff.2 ⟨hface.trans ?_, ?_⟩
    · exact congrArg (fun r => (Part.unstamp r).unmark) hbare
    · rw [hchildren]
      exact (h.children.mono Binds.toOutlined).outlines
  refine { toOutlined := .one ?_ houtline, marked := by simpa using hmarked, behind := hbehind, functions := ?_ }
  · rw [hstub, ← p'.stub_bare, hbare, p.stub_bare]
  · intro r hr q' hq' hfun
    obtain rfl := List.mem_singleton.1 hr
    rw [Part.all_eq, List.mem_cons] at hq'
    rcases hq' with rfl | hq'
    · exact ⟨p, by rw [Part.all_eq]; exact .head _, houtline, hhead hfun⟩
    · obtain ⟨c', hc', hq'⟩ := List.mem_flatMap.1 hq'
      obtain ⟨c, hc, q, hq, hmarks⟩ := hbelow.functions c' (hchildren ▸ hc') q' hq' hfun
      exact ⟨q, by rw [Part.all_eq]; exact .tail _ (List.mem_flatMap.2 ⟨c, hc, hq⟩), hmarks⟩

theorem Binds.rebuilt {known known' : Known} {p p' : Part} (h : Rebuilt Binds known p p' known')
    (hp : ∀ below, Binding.ofPart p below = below.flatten)
    (hp' : ∀ below, Binding.ofPart p' below = below.flatten) (hfun : p'.takesParams = false) :
    Binds known p [p'] known' := by
  have hbelow := BindsAll.ofChunks h.children
  have hbindings : p.bindings = p.children.flatMap Part.bindings := by
    rw [Part.bindings_eq, hp, List.flatMap_def]
  refine .ofRebuilt h rfl rfl rfl ?_ (hbindings ▸ hbelow.behind) fun hfun' => ?_
  · rw [Part.bindings_eq, hp', ← List.flatMap_def, hbelow.marked, hbindings]
  · exact absurd (hfun.symm.trans hfun') nofun

theorem Binds.expr {known known₁ known' : Known} {e e' e'' : Expr}
    (h : Rebuilt Binds known (.expr e) (.expr e') known₁) (hown : MarksOwn known₁ e' e'' known') :
    Binds known (.expr e) [.expr e''] known' := by
  have hbelow := BindsAll.ofChunks h.children
  have hbindings (e : Expr) : (Part.expr e).bindings =
      (Part.expr e).children.flatMap Part.bindings ++ Binding.ofExpr e := by
    rw [Part.bindings_eq, Binding.ofPart, List.flatMap_def]
  have hofExpr : Binding.ofExpr e' = Binding.ofExpr e := by
    rw [← Binding.ofExpr_bare, Part.expr.inj (h.bare_eq Binds.keepsStubs), Binding.ofExpr_bare]
  refine .ofRebuilt h hown.children hown.face (congrArg Part.expr hown.stub) ?_ ?_ nofun
  · rw [hbindings, hbindings, hown.children, hbelow.marked, hown.binding, hofExpr,
      Binding.markedIn_append, hbelow.behind]
  · rw [hown.behind, hbindings, hofExpr, Binding.behind_append, hbelow.behind]

theorem Binds.clause {known known' : Known} {c c' : Catch}
    (h : Rebuilt Binds (known.map (c.var :: ·)) (.clause c) (.clause c') known') :
    Binds known (.clause c) [.clause c'] known' := by
  have hbelow := BindsAll.ofChunks h.children
  have hbindings (c : Catch) : (Part.clause c).bindings =
      .caught c.var :: (Part.clause c).children.flatMap Part.bindings := by
    rw [Part.bindings_eq, Binding.ofPart, List.flatMap_def]
  have hstub : c'.stub = c.stub := Part.clause.inj (h.bare_eq Binds.keepsStubs)
  have hvar : c'.stub.var = c.stub.var := congrArg Catch.var hstub
  change c'.var = c.var at hvar
  refine .ofRebuilt h rfl rfl rfl ?_ ?_ nofun
  · rw [hbindings, hbindings, hvar, hbelow.marked]
    cases known <;> rfl
  · rw [hbindings, hbelow.behind]
    cases known <;> rfl

/-- A function is marked from what it starts with, and binds nothing around it. -/
theorem Binds.function {known known' : Known} {p p' : Part}
    (h : Rebuilt Binds (some p.bound) p p' known') (hp : ∀ below, Binding.ofPart p below = [])
    (hp' : ∀ below, Binding.ofPart p' below = []) : Binds known p [p'] known := by
  have hnone (q : Part) (hq : ∀ below, Binding.ofPart q below = []) : q.bindings = [] := by
    rw [Part.bindings_eq, hq]
  refine .ofRebuilt h rfl rfl rfl ?_ ?_ fun _ => (BindsAll.ofChunks h.children).marked
  · rw [hnone p hp, hnone p' hp', Binding.markedIn_nil]
  · rw [hnone p hp, Binding.behind_nil]

/-- The pass marks the bindings of each function in their order. -/
theorem declarations_binds : Sound (.tracking Eq) declarations Binds
    fun k e e' k' => Rebuilt Binds k (.expr e) (.expr e') k' where
  below _ h := h
  array hvs := Logic.map _ (VisitsItem.mapM hvs _) fun _ _ h => .array h
  store hv := hv.inOrder _
  expr h := Logic.bind _ (h _) fun e' known he' => by
    rintro _ rfl
    exact ⟨_, rfl, Binds.expr he' (markAssignment_marks e' known)⟩
  stmt h := Logic.bind _ (h _) fun _ _ hs => Logic.pure _ <|
    Binds.rebuilt hs (fun _ => rfl) (fun _ => rfl) rfl
  param h := Logic.weaken _ (h _) fun _ _ hp => Binds.rebuilt hp (fun _ => rfl) (fun _ => rfl) rfl
  closure {known c _} h := by
    rintro _ rfl
    obtain ⟨_, -, hc⟩ := h (some (Part.closure c).bound) _ rfl
    exact ⟨_, rfl, Binds.function hc (fun _ => rfl) fun _ => rfl⟩
  clause {known c _} h := by
    rintro _ rfl
    obtain ⟨k', hk', hc⟩ := h (known.map (c.var :: ·)) _ rfl
    exact ⟨k', hk', Binds.clause hc⟩
  method {known m _} h := by
    rintro _ rfl
    obtain ⟨_, -, hm⟩ := h (some (Part.method m).bound) _ rfl
    exact ⟨_, rfl, Binds.function hm (fun _ => rfl) fun _ => rfl⟩
  cls h := Logic.weaken _ (h _) fun _ _ hc => Binds.rebuilt hc (fun _ => rfl) (fun _ => rfl) rfl
  iface h := Logic.weaken _ (h _) fun _ _ hi => Binds.rebuilt hi (fun _ => rfl) (fun _ => rfl) rfl

end Annotate

end ClassScript
