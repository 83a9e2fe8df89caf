import ClassScript.Proofs.Annotate.Locals
import ClassScript.Proofs.Simplify.Occurrence
import ClassScript.Proofs.Tree.Edited
/-!
# Initial values are exact

The pass for initial values puts assignments of null in front of the bodies of functions and does nothing else. As
long as no class is declared in a function, they are for exactly the variables that occur in the body without a value
(`SourceFile.initialisers_exact`).

The pass works from below: it looks at a body in which the closures have got their initial values. That does not show
in what the body mentions and defines (`Kept`), for of a closure only the captured names count.
-/

namespace ClassScript

namespace Part

/-- No class, interface or method is declared in a function. -/
def Flat (p : Part) : Prop := ∀ q ∈ p.all, q.takesParams = true → ∀ r ∈ q.below, r.isDeclaration = false

theorem Flat.child {p c : Part} (h : p.Flat) (hc : c ∈ p.children) : c.Flat :=
  fun q hq => h q (all_subset_of_mem_children hc hq)

/-- The position of an expression, a statement or a declaration. -/
def position : Part → Position
  | .expr e => e.pos
  | .stmt s => s.pos
  | .cls c => c.pos
  | .iface i => i.pos
  | _ => .unknown

/-- The position of the first statement of a function. -/
def start (p : Part) : Position := (p.body.head?.map Stmt.pos).getD .unknown

/-- The function with statements in front of its body. -/
def prepend (ss : List Stmt) : Part → Part
  | .method m => .method { m with body := m.body.map (ss ++ ·) }
  | .closure c => .closure { c with body := ss ++ c.body }
  | p => p

/-- The variable that the first statement of a function sets to null. -/
def firstNull? (p : Part) : Option String :=
  match p.body with
  | .expression (.assign _ (.variable _ n _) (.null _) _) :: _ => some n
  | _ => none

variable (p : Part)

theorem takesParams_bare : p.bare.takesParams = p.takesParams := by cases p <;> rfl

theorem arity_bare : p.bare.arity = p.arity := by
  cases p with
  | method | closure => exact List.length_map _
  | _ => rfl

theorem bound_bare : p.bare.bound = p.bound := by
  cases p with
  | method | closure => simp [bare, bound, Param.stub]
  | _ => rfl

end Part

theorem Simplify.Usage.ofPart_bare (p : Part) (below : List Usage) : ofPart p.bare below = ofPart p below := by
  cases p with
  | expr e =>
    cases e with
    | assign _ t _ _ => cases t <;> rfl
    | _ => rfl
  | closure c =>
    simp only [Part.bare, ofPart, List.length_map, List.all_map]
    rfl
  | stmt s => cases s <;> rfl
  | _ => rfl

theorem Rebuilt.position_eq {κ : Type} {R : Change κ} (hR : ∀ {k p p' k'}, R k p [p'] k' → p'.position = p.position)
    {k k' : κ} {p p' : Part} (h : Rebuilt R k p p' k') : p'.position = p.position := by
  cases h with
  | expression h | classDecl h | interfaceDecl h => exact (hR h :)
  | _ => rfl

namespace Simplify

/-- Initial values in front of the body of a function: one for each variable that occurs in it without a value. -/
def Prefixes (p q p' : Part) : Prop :=
  if p.isFunction = true then
    ∃ names, Undefined p.bound p.body names ∧ p' = q.prepend (names.map (nullAssignment p.start))
  else p' = q

/-- A part and what it is with initial values. -/
abbrev Initialised : Part → Part → Prop := Edited (fun _ _ => ()) (fun _ => Prefixes) ()

/-- What the pass makes of a part. -/
structure Kept (p p' : Part) : Prop where
  stub : p'.stub = p.stub
  position : p'.position = p.position
  usage : (∀ q ∈ p.all, q.isDeclaration = false) → p'.fold Usage.ofPart = p.fold Usage.ofPart
  initialised : p.Flat → Initialised p p'

section Kept

variable {p q : Part} (h : Rebuilt (Childwise Kept) () p q ())

include h

theorem bare_kept : q.bare = p.bare := h.bare_eq fun ⟨_, hone, hkept⟩ => by
  cases hone
  exact hkept.stub

theorem stub_kept : q.stub = p.stub := by rw [← q.stub_bare, bare_kept h, p.stub_bare]

theorem position_kept : q.position = p.position := h.position_eq fun ⟨_, hone, hkept⟩ => by
  cases hone
  exact hkept.position

theorem map_children_kept {α : Type} {f : Part → α} (hf : ∀ c ∈ p.children, ∀ c', Kept c c' → f c' = f c) :
    q.children.map f = p.children.map f := by
  have hall := ((List.forall₂_and_left _ _).2 ⟨hf, h.children.forall₂⟩).imp fun c c' hc => (hc.1 c' hc.2).symm
  have hmaps : List.Forall₂ Eq (p.children.map f) (q.children.map f) :=
    List.forall₂_map_left_iff.2 (List.forall₂_map_right_iff.2 hall)
  exact (List.forall₂_eq_eq_eq ▸ hmaps).symm

theorem usage_kept (hp : ∀ r ∈ p.all, r.isDeclaration = false) : q.fold Usage.ofPart = p.fold Usage.ofPart := by
  have hcs := (forall_mem_all_iff.1 hp).2
  rw [Part.fold_eq, Part.fold_eq, map_children_kept h fun c hc c' hkept => hkept.usage (hcs c hc),
    ← Usage.ofPart_bare, bare_kept h, Usage.ofPart_bare]

theorem map_body_kept {α : Type} {f : Part → α} (hp : p.takesParams = true)
    (hf : q.children.map f = p.children.map f) : (Part.stmts q.body).map f = (Part.stmts p.body).map f := by
  have hq : q.takesParams = true := by rw [← q.takesParams_bare, bare_kept h, p.takesParams_bare, hp]
  have harity : q.arity = p.arity := by rw [← q.arity_bare, bare_kept h, p.arity_bare]
  rw [Part.stmts_body hp, Part.stmts_body hq, List.map_drop, List.map_drop, hf, harity]

/-- What the statements of a function mention and define does not depend on the initial values in it. -/
theorem usage_body_kept (hp : p.takesParams = true) (hbelow : ∀ r ∈ p.below, r.isDeclaration = false) :
    usage q.body = usage p.body := by
  have hfolds := map_children_kept h fun c hc c' hkept =>
    hkept.usage fun r hr => hbelow r (List.mem_flatMap.2 ⟨c, hc, hr⟩)
  rw [usage, usage, map_body_kept h hp hfolds]

theorem start_kept (hp : p.takesParams = true) : q.start = p.start := by
  have hstart (r : Part) : r.start = (((Part.stmts r.body).map Part.position).head?).getD .unknown := by
    rw [Part.stmts, List.map_map, List.head?_map]
    rfl
  have hpositions := map_children_kept h fun _ _ _ hkept => hkept.position
  rw [hstart, hstart, map_body_kept h hp hpositions]

theorem initialised_kept {p' : Part} (hp : p.Flat) (hedit : Prefixes p q p') : Initialised p p' :=
  .of_rebuilt (fun _ => rfl) h (fun _ hc _ ⟨c', hone, hkept⟩ => ⟨c', hone, hkept.initialised (hp.child hc)⟩) hedit

/-- The names that the pass finds are those of the variables without a value. -/
theorem prefixes_kept (hp : p.Flat) (hfun : p.isFunction = true) :
    Prefixes p q (q.prepend ((undefinedIn q.bound q.body).map (nullAssignment q.start))) := by
  have htakes : p.takesParams = true := by rw [p.takesParams_eq, hfun, Bool.true_or]
  have hbound : q.bound = p.bound := by rw [← q.bound_bare, bare_kept h, p.bound_bare]
  have husage := usage_body_kept h htakes (hp p p.mem_all_self htakes)
  have hnames : undefinedIn q.bound q.body = undefinedIn p.bound p.body := by rw [undefinedIn, husage, hbound]; rfl
  rw [Prefixes, if_pos hfun, hnames, start_kept h htakes]
  exact ⟨_, undefinedIn_undefined _ _, rfl⟩

theorem Kept.rebuilt (hp : p.isFunction = false) : Kept p q where
  stub := stub_kept h
  position := position_kept h
  usage := usage_kept h
  initialised hflat := initialised_kept h hflat (by rw [Prefixes, if_neg (by simp [hp])])

end Kept

theorem initialisedMethod_eq (m : Method) : Part.method (initialisedMethod m) =
    (Part.method m).prepend ((undefinedIn (Part.method m).bound (Part.method m).body).map
      (nullAssignment (Part.method m).start)) := by
  obtain ⟨n, ps, body, _, _, _, _⟩ := m
  cases body <;> rfl

theorem initialisedClosure_eq {c : Closure} (hc : c.isIteration = false) : Part.closure (initialisedClosure c) =
    (Part.closure c).prepend ((undefinedIn (Part.closure c).bound c.body).map
      (nullAssignment (Part.closure c).start)) := by
  rw [initialisedClosure, if_neg (by simp [hc])]
  rfl

theorem kept_method {m m' : Method} (h : Rebuilt (Childwise Kept) () (.method m) (.method m') ()) :
    Kept (.method m) (.method (initialisedMethod m')) where
  stub := (stub_kept h :)
  position := rfl
  -- a method is a declaration itself
  usage hp := by cases (forall_mem_all_iff.1 hp).1
  initialised hflat := initialised_kept h hflat (initialisedMethod_eq m' ▸ prefixes_kept h hflat rfl)

theorem kept_closure {c c' : Closure} (h : Rebuilt (Childwise Kept) () (.closure c) (.closure c') ()) :
    Kept (.closure c) (.closure (initialisedClosure c')) := by
  obtain ⟨-, hcaptures, -, -, -, hiteration⟩ := Closure.mk.inj (Part.closure.inj (bare_kept h))
  cases hc : c.isIteration with
  | true =>
    rw [initialisedClosure, if_pos (hiteration.trans hc)]
    exact .rebuilt h (by simp [Part.isFunction, hc])
  | false =>
    have hfun : (Part.closure c).isFunction = true := by simp [Part.isFunction, hc]
    refine ⟨rfl, rfl, fun _ => ?_, fun hflat => initialised_kept h hflat ?_⟩
    · -- of such a closure only the captured names count, and they stay
      rw [Part.fold_eq, Part.fold_eq]
      simp [Usage.ofPart, initialisedClosure, hiteration, hc, hcaptures]
    · exact initialisedClosure_eq (hiteration.trans hc) ▸ prefixes_kept h hflat hfun

/-- The pass works on what a function mentions and defines as it stood before the pass. -/
theorem initialisers_kept : Sound (.plain Unit) initialisers (Childwise Kept)
    fun k e e' k' => Rebuilt (Childwise Kept) k (.expr e) (.expr e') k' where
  below _ h := h
  array hvs := Rebuilt.array (VisitsItem.mapM hvs _)
  store hv := hv.inOrder _
  expr h := ⟨_, rfl, .rebuilt (h _) rfl⟩
  stmt h := ⟨_, rfl, .rebuilt (h _) rfl⟩
  param h := ⟨_, rfl, .rebuilt (h _) rfl⟩
  closure h := ⟨_, rfl, kept_closure (h _)⟩
  clause h := ⟨_, rfl, .rebuilt (h _) rfl⟩
  method h := ⟨_, rfl, kept_method (h _)⟩
  cls h := ⟨_, rfl, .rebuilt (h _) rfl⟩
  iface h := ⟨_, rfl, .rebuilt (h _) rfl⟩

end Simplify

namespace SourceFile

open Simplify

/-- In a file without classes in functions, the pass for initial values puts an assignment of null in front of the
body of each function for exactly the variables that occur in it without a value, each once and in the order of
their first occurrences. -/
theorem initialisers_exact {f : SourceFile} (hf : f.Flat) :
    List.Forall₂ Initialised (Part.stmts f.stmts) (Part.stmts (stmtsThrough (m := Id) initialisers f.stmts)) := by
  have hkept := (initialisers_kept.stmts f.stmts ()).chunks.forall₂
  have hflat : ∀ p ∈ Part.stmts f.stmts, p.Flat := fun p hp q hq => hf q (List.mem_flatMap.2 ⟨p, hp, hq⟩)
  exact ((List.forall₂_and_left _ _).2 ⟨hflat, hkept⟩).imp fun _ _ ⟨hflat, hkept⟩ => hkept.initialised hflat

/-- A method with a loop and a closure, each with statements in front of its body. -/
def pickMethod (method closure : List Stmt) : Method where
  name := "pick"
  params := [⟨"xs", none, none, false, false, false, .unknown⟩]
  body := some (method ++
    [.expression (.methodCall .unknown (.var .unknown "xs") (.ident "foreach")
      [⟨.closure .unknown
        { params := [⟨"x", none, none, false, false, false, .unknown⟩]
          captures := []
          body := [.expression (.assign .unknown (.var .unknown "y") (.var .unknown "x") (some false))]
          byRefReturn := false
          isStatic := false
          isIteration := true }, false⟩] none),
    .ret .unknown (some (.closure .unknown
      { params := []
        captures := [⟨"z", false⟩, ⟨"y", false⟩]
        body := closure ++ [.ret .unknown (some (.var .unknown "w"))]
        byRefReturn := false
        isStatic := false
        isIteration := false }))])
  byRefReturn := false
  modifiers := {}
  resolved := none
  pos := .unknown

def pickFile (method closure : List Stmt) : SourceFile where
  path := "pick"
  stmts := [.classDecl
    { name := "Pick"
      parent := none
      interfaces := []
      members := [.method (pickMethod method closure)]
      isAbstract := false
      isFinal := false
      pos := .unknown
      qualified := none
      scriptApis := none }]

theorem pickFile_initialised :
    let file := pickFile [] []
    let initialised := pickFile [nullAssignment .unknown "y", nullAssignment .unknown "z"] [nullAssignment .unknown "w"]
    file.Flat ∧ List.Forall₂ Initialised (Part.stmts file.stmts) (Part.stmts initialised.stmts) := by
  intro file initialised
  have hflat : file.Flat := by decide +kernel
  have hstmts : stmtsThrough (m := Id) initialisers file.stmts = initialised.stmts := by with_unfolding_all rfl
  exact ⟨hflat, hstmts ▸ initialisers_exact hflat⟩

/-- A method with a closure that captures `this`. -/
def capturedThisText : String :=
  "<?php class C \x7b public function f() \x7b $g = function () use ($this) \x7b return 1; \x7d; \x7d \x7d"

/-- What captures `this` mentions it, so it gets an initial value. -/
theorem capturedThis_initialised : ∃ f g, SourceFile.parse "this" capturedThisText = .ok f ∧
    f.simplify .full "Api" = .ok g ∧ ∃ p ∈ g.parts, p.isFunction = true ∧ p.firstNull? = some "this" := by
  obtain ⟨f, hparse, hrun⟩ := exists_parse "this" capturedThisText String.toList_ofList
    (p := fun f => (f.simplify .full "Api").toOption.any fun g =>
      ∃ p ∈ g.parts, p.isFunction = true ∧ p.firstNull? = some "this") (by decide +kernel)
  obtain ⟨g, hsimplify, hrun⟩ := exists_ok_of_any hrun
  exact ⟨f, g, hparse, hsimplify, of_decide_eq_true hrun⟩

end SourceFile

end ClassScript
