import ClassScript.Proofs.Simplify.Inert
import ClassScript.Proofs.Simplify.Prologue
/-!
# Guards check types

The pass for the parameter types drops the types of a function and puts guards in front of its body, and does nothing
else (`SourceFile.typeGuards_checked`). What a guard does is said for all values that a program may have, as far as
tests see them (`Values`): it throws for the values that are not of the declared type (`Checks`).

There is one exception. A parameter that takes null and nothing else is guarded like any other that does not say that
null may be passed, so its guard throws for null too (`Param.barsNull`).
-/

namespace ClassScript

/-! ## Values -/

/-- The kinds of values with a scalar type of their own. -/
inductive ValueKind where
  | string | int | float | bool | array | callable | object
deriving DecidableEq, Repr

/-- The values of a program as tests see them. Null is of no other kind and of no class. -/
structure Values (α : Type) where
  isNull : α → Bool
  isKind : ValueKind → α → Bool
  isInstance : Name → α → Bool
  kind_null : ∀ {x} k, isNull x = true → isKind k x = false
  instance_null : ∀ {x} c, isNull x = true → isInstance c x = false

namespace Values

variable {α : Type} (v : Values α)

/-- Whether a value is of a scalar type; those that are left say nothing of values. -/
def scalar : String → α → Bool
  | "string" => v.isKind .string
  | "int" => v.isKind .int
  | "float" => v.isKind .float
  | "bool" => v.isKind .bool
  | "array" | "iterable" => v.isKind .array
  | "callable" => v.isKind .callable
  | "object" => v.isKind .object
  | "null" => v.isNull
  | _ => fun _ => true

/-- Whether a value is of a type, taken without the mark that lets null pass. -/
def member (t : TypeHint) : α → Bool :=
  if t.name.isScalar then v.scalar (lower t.name.first) else v.isInstance t.name

/-- Whether a value may be passed for a parameter of the type. Null may also if the type or a default allows it. -/
def accepts (p : Param) (t : TypeHint) (x : α) : Bool :=
  v.member t x || (v.isNull x && (t.nullable || p.default.isSome))

/-- What the builtin tests say of values. -/
def builtin? : String → Option (α → Bool)
  | "is_string" => some (v.isKind .string)
  | "is_int" => some (v.isKind .int)
  | "is_float" => some (v.isKind .float)
  | "is_bool" => some (v.isKind .bool)
  | "is_array" => some (v.isKind .array)
  | "is_callable" => some (v.isKind .callable)
  | "is_object" => some (v.isKind .object)
  | "is_null" => some v.isNull
  | _ => none

/-- The truth of a condition over tests of variables. -/
def eval (env : String → α) : Expr → Option Bool
  | .isset _ [.variable _ n _] => some (!v.isNull (env n))
  | .call _ (.named f) [⟨.variable _ n _, false⟩] => (v.builtin? f.joined).map (· (env n))
  | .instanceOf _ (.variable _ n _) (.named c) => some (v.isInstance c (env n))
  | .unary _ .not e => (eval env e).map (!·)
  | .binary _ .and l r => (eval env l).bind fun a => (eval env r).map (a && ·)
  | .binary _ .or l r => (eval env l).bind fun a => (eval env r).map (a || ·)
  | _ => none

attribute [local simp] eval

/-- Whether a statement throws that throws a type error under a condition and does nothing else. -/
def throws? (env : String → α) : Stmt → Option Bool
  | .branch _ test [.throwValue _ (.new _ (.named c) _)] [] none =>
    if c = .global Simplify.typeErrorClass then v.eval env test else none
  | _ => none

end Values

/-! ## Guards -/

/-- Whether the type is that of null alone. -/
def TypeHint.isNull (t : TypeHint) : Bool := t.name.isScalar && lower t.name.first == "null"

/-- Whether the type is that of null alone, and nothing else says that null may be passed. -/
def Param.barsNull (p : Param) (t : TypeHint) : Bool := t.isNull && !(t.nullable || p.default.isSome)

namespace Simplify

variable {α : Type}

/-- The statement throws for the values that may not be passed, and for null if it is barred. -/
def Checks (p : Param) (t : TypeHint) (s : Stmt) : Prop :=
  ∀ {α : Type} (v : Values α) (env : String → α), v.throws? env s =
    some (!v.accepts p t (env p.name) || (v.isNull (env p.name) && p.barsNull t))

/-- Guards in the order of the parameters, at most one for each that is typed and takes a single value. There is
none only where every value is of the type. -/
inductive GuardedBy : List Param → List Stmt → Prop
  | nil : GuardedBy [] []
  | free {p ps gs} : (∀ t, p.type = some t → p.variadic = false → ∀ {α : Type} (v : Values α) x, v.member t x = true) →
      GuardedBy ps gs → GuardedBy (p :: ps) gs
  | checked {p t g ps gs} : p.type = some t → p.variadic = false → Checks p t g → GuardedBy ps gs →
      GuardedBy (p :: ps) (g :: gs)

/-! ## Types and their tests -/

/-- The test of a scalar type tells its values. -/
theorem builtin_scalarTest (v : Values α) {s test : String} (h : scalarTest? s = some test) :
    v.builtin? (Name.global test).joined = some (v.scalar s) := by
  have hjoined : (Name.global test).joined = test := by
    unfold scalarTest? at h
    split at h <;> cases h <;> decide +kernel
  rw [hjoined]
  unfold scalarTest? at h
  split at h <;> cases h <;> rfl

/-- A scalar type without a test has all values. -/
theorem scalar_of_no_test (v : Values α) {s : String} (h : scalarTest? s = none) (x : α) : v.scalar s x = true := by
  unfold scalarTest? at h
  unfold Values.scalar
  split at h <;> simp_all

/-- Null is of no scalar type that has a test, apart from its own. -/
theorem scalar_null (v : Values α) {s test : String} (h : scalarTest? s = some test) {x : α} (hx : v.isNull x = true) :
    v.scalar s x = (s == "null") := by
  unfold scalarTest? at h
  split at h <;> cases h <;> simp [Values.scalar, v.kind_null _ hx, hx]

/-- A test that there is tells the values of the type. -/
theorem eval_typeTest {t : TypeHint} {n : String} {pos : Position} {e : Expr}
    (h : typeTest? t (.var pos n) pos = some e) (v : Values α) (env : String → α) :
    v.eval env e = some (v.member t (env n)) := by
  unfold typeTest? at h
  split at h
  · next hscalar =>
    obtain ⟨test, htest, rfl⟩ := Option.map_eq_some_iff.1 h
    simp [Values.eval, Values.member, hscalar, builtin_scalarTest v htest]
  · next hscalar =>
    cases h
    simp [Values.eval, Values.member, hscalar]

/-- Null is of a type that has a test only if that is the type of null. -/
theorem member_null {t : TypeHint} {e e' : Expr} {pos : Position} (h : typeTest? t e pos = some e') (v : Values α)
    {x : α} (hx : v.isNull x = true) : v.member t x = t.isNull := by
  unfold typeTest? at h
  unfold Values.member TypeHint.isNull
  split at h
  · next hscalar =>
    obtain ⟨test, htest, -⟩ := Option.map_eq_some_iff.1 h
    rw [if_pos hscalar, scalar_null v htest hx, hscalar, Bool.true_and]
  · next hscalar =>
    rw [if_neg hscalar, v.instance_null _ hx, Bool.eq_false_iff.2 hscalar, Bool.false_and]

theorem member_of_no_test {t : TypeHint} {e : Expr} {pos : Position} (h : typeTest? t e pos = none) (v : Values α)
    (x : α) : v.member t x = true := by
  unfold typeTest? at h
  split at h
  · next hscalar =>
    rw [Values.member, if_pos hscalar, scalar_of_no_test v (Option.map_eq_none_iff.1 h)]
  · cases h

/-! ## The guards of a function -/

theorem eval_guardTest (v : Values α) (env : String → α) (nullable : Bool) (n : String) (pos : Position) {e : Expr}
    {b : Bool} (h : v.eval env e = some b) : v.eval env (guardTest nullable (.isset pos [.var pos n]) e pos) =
      some (if nullable then !v.isNull (env n) && !b else v.isNull (env n) || !b) := by
  unfold guardTest
  split <;> simp [Values.eval, h]

/-- Null makes the two forms of a guard differ. It passes the first, and the second throws, be null of the type or
not. -/
theorem guard_checks {owner : String} {i : Nat} {p : Param} {t : TypeHint} {s : Stmt}
    (h : guard? owner i p t = some s) : Checks p t s := by
  intro α v env
  obtain ⟨e, htest, rfl⟩ := Option.map_eq_some_iff.1 h
  have heval := eval_guardTest v env (t.nullable || p.default.isSome) p.name p.pos (eval_typeTest htest v env)
  rw [Values.throws?, if_pos rfl, heval, Values.accepts, Param.barsNull]
  cases hx : v.isNull (env p.name) with
  | false => simp
  | true =>
    rw [member_null htest v hx]
    cases (t.nullable || p.default.isSome) <;> cases t.isNull <;> rfl

theorem guardsFrom_guarded (owner : String) (ps : List Param) (i : Nat) : GuardedBy ps (guardsFrom owner i ps) := by
  induction ps generalizing i with
  | nil => exact .nil
  | cons p ps ih =>
    rw [guardsFrom]
    cases hvariadic : p.variadic with
    | true => exact .free (by simp [hvariadic]) (ih _)
    | false =>
      cases htype : p.type with
      | none => exact .free (by simp [htype]) (ih _)
      | some t =>
        simp only [Bool.false_eq_true, if_false, Option.bind_some]
        cases hguard : guard? owner i p t with
        | none =>
          refine .free (fun t' ht' _ _ v x => ?_) (ih _)
          cases htype.symm.trans ht'
          exact member_of_no_test (Option.map_eq_none_iff.1 hguard) v x
        | some g => exact .checked htype hvariadic (guard_checks hguard) (ih _)

/-- Two parameters are the same as guards see them. -/
structure SameFace (p p' : Param) : Prop where
  name : p'.name = p.name
  type : p'.type = p.type
  variadic : p'.variadic = p.variadic
  default : p'.default.isSome = p.default.isSome

theorem SameFace.refl (p : Param) : SameFace p p := ⟨rfl, rfl, rfl, rfl⟩

theorem GuardedBy.of_sameFace {ps ps' : List Param} {gs : List Stmt} (hps : List.Forall₂ SameFace ps ps')
    (h : GuardedBy ps' gs) : GuardedBy ps gs := by
  induction hps generalizing gs with
  | nil => exact h
  | cons hp _ ih =>
    cases h with
    | free hfree h => exact .free (fun t ht hv => hfree t (hp.type.trans ht) (hp.variadic.trans hv)) (ih h)
    | checked htype hvariadic hcheck h =>
      refine .checked (hp.type.symm.trans htype) (hp.variadic.symm.trans hvariadic) (fun v env => ?_) (ih h)
      rw [hcheck v env]
      simp only [Values.accepts, Param.barsNull, hp.name, hp.default]

/-! ## The pass -/

end Simplify

namespace Part

def params : Part → List Param
  | .method m => m.params
  | .closure c => c.params
  | _ => []

/-- The function with its parameters without types. -/
def untyped : Part → Part
  | .method m => .method { m with params := m.params.map Simplify.untyped }
  | .closure c => .closure { c with params := c.params.map Simplify.untyped }
  | p => p

end Part

namespace Simplify

/-- A function outside of script classes loses the types of its parameters and has their guards in front of its body.
All other parts stay. -/
def Guards (k : Place) (p q p' : Part) : Prop :=
  if p.takesParams = true ∧ k.inScript = false then ∃ gs, GuardedBy p.params gs ∧ p' = q.untyped.prepend gs
  else p' = q

/-- A part and what becomes of it where its functions are guarded; the nearest class tells whether they are. -/
abbrev Guarded (scriptInterface : String) : Place → Part → Part → Prop := Edited (placeBelow scriptInterface) Guards

/-- What the pass makes of a part at a place. -/
structure GuardedAt (si : String) (k : Place) (p : Part) (ps : List Part) (k' : Place) : Prop where
  same : k' = k
  one : ∃ p', ps = [p'] ∧ Guarded si k p p'

section Guarded

variable {si : String} {k k₁ k' : Place} {p p' q : Part}

theorem GuardedAt.edited (h : Rebuilt (GuardedAt si) k₁ p q k') (hk : k₁ = placeBelow si k p)
    (hedit : Guards k p q p') : GuardedAt si k p [p'] k where
  same := rfl
  one := ⟨p', rfl, .of_rebuilt GuardedAt.same h (fun _ _ _ hc => hk ▸ hc.one) hedit⟩

theorem GuardedAt.rebuilt (h : Rebuilt (GuardedAt si) k p q k') (hp : p.takesParams = false)
    (hk : ∀ k, placeBelow si k p = k) : GuardedAt si k p [q] k' := by
  cases h.children.same GuardedAt.same
  refine .edited h (hk _).symm ?_
  rw [Guards, hp]
  simp

end Guarded

/-- The pass changes a parameter in its default only. -/
theorem sameFace_of_guarded {si : String} {k : Place} {p p' : Param} (h : Guarded si k (.param p) (.param p')) :
    SameFace p p' := by
  obtain ⟨q, hq, hedit⟩ := edited_iff.1 h
  rw [Guards, if_neg (fun hp => by cases hp.1)] at hedit
  cases hedit
  cases hq with
  | leaf => exact .refl p
  | param hd => exact ⟨rfl, rfl, rfl, by cases hd <;> rfl⟩

theorem sameFaces {si : String} {k k' : Place} {ps ps' : List Param}
    (h : Each (Change.param (GuardedAt si)) k ps ps' k') : List.Forall₂ SameFace ps ps' := by
  induction h with
  | nil => exact .nil
  | cons hp _ ih =>
    obtain ⟨_, hone, hguarded⟩ := hp.one
    cases hone
    exact .cons (sameFace_of_guarded hguarded) ih

/-- The parameters of a function that is rebuilt. -/
theorem sameFaces_of_rebuilt {si : String} {k k' : Place} {p q : Part} (h : Rebuilt (GuardedAt si) k p q k')
    (hp : p.takesParams = true) : List.Forall₂ SameFace p.params q.params := by
  have hrefl (ps : List Param) : List.Forall₂ SameFace ps ps := List.forall₂_same.2 fun p _ => .refl p
  cases h with
  | leaf => exact hrefl _
  | closure hps _ => exact sameFaces hps
  | method hps _ => exact sameFaces hps
  | _ => cases hp

theorem guards_of_rebuilt {si owner : String} {k k' : Place} {p q p' : Part} (h : Rebuilt (GuardedAt si) k p q k')
    (hk : k.inScript = false) (hp : p.takesParams = true) (hp' : p' = q.untyped.prepend (guards owner q.params)) :
    Guards k p q p' := by
  rw [Guards, if_pos ⟨hp, hk⟩]
  exact ⟨_, (guardsFrom_guarded owner q.params 0).of_sameFace (sameFaces_of_rebuilt h hp), hp'⟩

/-- Outside of script classes functions are guarded. -/
theorem typeGuards_guarded (si : String) : Sound (.reading Place (.plain Unit)) (typeGuards si) (GuardedAt si)
    fun k e e' k' => Rebuilt (GuardedAt si) k (.expr e) (.expr e') k' where
  below _ h := h
  array hvs := Logic.map _ (VisitsItem.mapM hvs _) fun _ _ h => .array h
  store hv := hv.inOrder _
  expr h := .rebuilt (h _) rfl fun _ => rfl
  stmt h := .rebuilt (h _) rfl fun _ => rfl
  param h := .rebuilt (h _) rfl fun _ => rfl
  clause h := .rebuilt (h _) rfl fun _ => rfl
  closure {k _ _} h := Logic.bind _ (h _) fun c' k' hc' => by
    cases hc'.children.same GuardedAt.same
    obtain ⟨_ | _, cls⟩ := k
    · exact .edited hc' rfl (guards_of_rebuilt hc' rfl rfl rfl)
    · exact .edited hc' rfl rfl
  method {k _ _} h := Logic.bind _ (h _) fun m' k' hm' => by
    cases hm'.children.same GuardedAt.same
    obtain ⟨_ | _, cls⟩ := k
    · exact .edited hm' rfl (guards_of_rebuilt hm' rfl rfl rfl)
    · exact .edited hm' rfl rfl
  cls h := .edited (h _) rfl rfl
  iface h := .rebuilt (h _) rfl fun _ => rfl

end Simplify

/-- Null and no other value. -/
def Values.nullOnly : Values Unit where
  isNull _ := true
  isKind _ _ := false
  isInstance _ _ := false
  kind_null _ _ := rfl
  instance_null _ _ := rfl

namespace SourceFile

open Simplify

/-- In every function outside of script classes, the pass for the parameter types drops the types and puts guards in
front of the body, in the order of the parameters and at most one for each that is typed and takes a single value.
Nothing else changes. A guard throws for exactly the values that may not be passed, and one for null alone also for
null. -/
theorem typeGuards_checked (scriptInterface : String) (f : SourceFile) :
    List.Forall₂ (Guarded scriptInterface {}) (Part.stmts f.stmts)
      (Part.stmts ((stmtsThrough (typeGuards scriptInterface) f.stmts).run {})) := by
  have hstmts := (typeGuards_guarded scriptInterface).stmts f.stmts {}
  have hchildwise : Change.Stmts (Childwise (Guarded scriptInterface {})) () f.stmts _ () :=
    hstmts.steady GuardedAt.same fun _ _ _ hchange => hchange.one
  exact hchildwise.chunks.forall₂

/-- A method with a parameter for null. -/
def nullParamText : String := "<?php class C \x7b public function f(null $x) \x7b\x7d \x7d"

/-- Null is of the type that the parameter declares, but the guard throws for it. -/
theorem nullParam_refused : ∃ f g, SourceFile.parse "null" nullParamText = .ok f ∧ f.simplify .full "Api" = .ok g ∧
    (∃ p ∈ f.parts, ∃ q ∈ p.params, q.type.any (Values.nullOnly.accepts q · ()) = true) ∧
    ∃ p ∈ g.parts, p.isFunction = true ∧ ∃ s ∈ p.body, Values.nullOnly.throws? (fun _ => ()) s = some true := by
  obtain ⟨f, hparse, hrun⟩ := exists_parse "null" nullParamText String.toList_ofList
    (p := fun f => (f.simplify .full "Api").toOption.any fun g =>
      (∃ p ∈ f.parts, ∃ q ∈ p.params, q.type.any (Values.nullOnly.accepts q · ()) = true) ∧
        ∃ p ∈ g.parts, p.isFunction = true ∧ ∃ s ∈ p.body, Values.nullOnly.throws? (fun _ => ()) s = some true)
    (by decide +kernel)
  obtain ⟨g, hsimplify, hrun⟩ := exists_ok_of_any hrun
  exact ⟨f, g, hparse, hsimplify, of_decide_eq_true hrun⟩

end SourceFile

end ClassScript
