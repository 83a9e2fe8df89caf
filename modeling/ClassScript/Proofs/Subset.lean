import ClassScript.Proofs.Grammar.Statement
import ClassScript.Proofs.Tree.Contains
import ClassScript.Subset
/-!
# The check is exact

What the supported subset is, said of the tree without regard to the order in which a file is searched
(`SourceFile.Fits`): what may stand at file level, and what classes, methods, closures and expressions may be
like. A file has no fault just if all that a walk gets to is like that. A walk does not get to the default of a
property that an interface has; but the grammar gives interfaces no properties, and the passes that simplify a
file do not either, so a file from a text is in the subset as a whole (`SourceFile.violation?_eq_none_iff`).
-/

namespace ClassScript

namespace Subset

/-! ## The subset -/

/-- What may stand at file level, through namespaces. -/
inductive FileLevel : Stmt → Prop
  | nsBlock {p n b r} : (∀ s ∈ b, FileLevel s) → FileLevel (.nsBlock p n b r)
  | imports {p is} : FileLevel (.imports p is)
  | classDecl {c} : FileLevel (.classDecl c)
  | interfaceDecl {i} : FileLevel (.interfaceDecl i)
  | nop {p} : FileLevel (.nop p)

structure ParamFits (p : Param) : Prop where
  byValue : p.byRef = false
  unpromoted : p.promoted = false
  variadic : p.variadic = true → p.default = none

structure MethodFits (m : Method) : Prop where
  params : ∀ p ∈ m.params, ParamFits p
  byValue : m.byRefReturn = false

structure ClosureFits (c : Closure) : Prop where
  params : ∀ p ∈ c.params, ParamFits p
  captures : ∀ u ∈ c.captures, u.byRef = false
  byValue : c.byRefReturn = false

/-- What a member fits by itself. -/
inductive MemberFits : Member → Prop
  | property {d} : d.modifiers.isStatic = false → MemberFits (.property d)
  | const {d} : MemberFits (.const d)
  | method {m} : m.modifiers.isAbstract = false → m.body ≠ none → m.modifiers.isStatic = false →
    MemberFits (.method m)

/-- The name that no other member may have; constructors have none. -/
def ownName? : Member → Option String
  | .method m => if m.isConstructor then none else some m.name
  | m => m.name?

structure ClassFits (c : Class) : Prop where
  members : ∀ m ∈ c.members, MemberFits m
  names : (c.members.filterMap ownName?).Pairwise fun n n' => lower n ≠ lower n'

/-- A class that the text does not name. -/
inductive Unnamed : ClassRef → Prop
  | dynamic {e} : Unnamed (.dynamic e)
  | static : Unnamed .static

/-- Expressions that have no emitted form. -/
inductive Unsupported : Expr → Prop
  | dynamicVariable {p e} : Unsupported (.dynamicVariable p e)
  | anonymousClass {p} : Unsupported (.anonymousClass p)
  | callee {p e as} : Unsupported (.call p (.dynamic e) as)
  | staticCall {p c n as} : c ≠ .parent → Unsupported (.staticCall p c n as)
  | staticProperty {p c n} : c ≠ .parent → Unsupported (.staticProperty p c n)
  | new {p c as} : Unnamed c → Unsupported (.new p c as)
  | instanceOf {p v c} : Unnamed c → Unsupported (.instanceOf p v c)
  | classConst {p c n} : Unnamed c → Unsupported (.classConst p c n)
  | propertyName {p o e b} : (∀ q s, o ≠ .variable q "this" s) → Unsupported (.property p o (.dynamic e) b)
  | methodName {p o e as b} : (∀ q s, o ≠ .variable q "this" s) → Unsupported (.methodCall p o (.dynamic e) as b)
  | callArg {p c as a} : a ∈ as → a.unpack = true → Unsupported (.call p c as)
  | staticArg {p c n as a} : a ∈ as → a.unpack = true → Unsupported (.staticCall p c n as)
  | newArg {p c as a} : a ∈ as → a.unpack = true → Unsupported (.new p c as)
  | methodArg {p o n as b a} : a ∈ as → a.unpack = true → Unsupported (.methodCall p o n as b)

end Subset

open Subset

/-- What stands at file level is supported, and so is whatever `P` says of a part. -/
structure SourceFile.Fits (f : SourceFile) (P : Part → Prop) : Prop where
  fileLevel : ∀ s ∈ f.stmts, FileLevel s
  classes : ∀ c, P (.cls c) → ClassFits c
  methods : ∀ m, P (.method m) → MethodFits m
  closures : ∀ c, P (.closure c) → ClosureFits c
  exprs : ∀ e, P (.expr e) → ¬ Unsupported e

/-- The file is in the supported subset: all that stands anywhere in it fits. -/
def SourceFile.InSubset (f : SourceFile) : Prop := f.Fits f.Holds

namespace Subset

/-! ## File level -/

mutual

theorem fileLevel?_eq_none_iff : (s : Stmt) → (fileLevel? s = none ↔ FileLevel s)
  | .nsBlock _ _ body _ => by
    rw [fileLevel?, firstFileLevel?_eq_none_iff body]
    exact ⟨.nsBlock, fun h => by cases h; assumption⟩
  | .imports .. => ⟨fun _ => .imports, fun _ => rfl⟩
  | .classDecl _ => ⟨fun _ => .classDecl, fun _ => rfl⟩
  | .interfaceDecl _ => ⟨fun _ => .interfaceDecl, fun _ => rfl⟩
  | .nop _ => ⟨fun _ => .nop, fun _ => rfl⟩
  | .functionDecl .. | .expression _ | .echo .. | .ret .. | .branch .. | .whileLoop .. | .forLoop .. | .foreach ..
  | .breakLoop _ | .continueLoop _ | .throwValue .. | .tryCatch .. | .block .. => ⟨nofun, nofun⟩

theorem firstFileLevel?_eq_none_iff : (ss : List Stmt) → (firstFileLevel? ss = none ↔ ∀ s ∈ ss, FileLevel s)
  | [] => ⟨fun _ => nofun, fun _ => rfl⟩
  | s :: ss => by
    rw [firstFileLevel?, Option.or_eq_none_iff, fileLevel?_eq_none_iff s, firstFileLevel?_eq_none_iff ss,
      List.forall_mem_cons]

end

/-! ## Declarations -/

theorem ite_some_eq_none {p : Prop} [Decidable p] {v : Violation} {o : Option Violation} :
    (if p then some v else o) = none ↔ ¬ p ∧ o = none := by
  split <;> simp [*]

theorem param?_eq_none_iff {p : Param} : param? p = none ↔ ParamFits p := by
  simp only [param?, ite_some_eq_none, Bool.and_eq_true, Bool.not_eq_true, not_and, Option.isSome_eq_false_iff,
    Option.isNone_iff_eq_none, and_true]
  exact ⟨fun ⟨hvalue, hpromoted, hvariadic⟩ => ⟨hvalue, hpromoted, hvariadic⟩, fun h => ⟨h.1, h.2, h.3⟩⟩

theorem params_eq_none_iff {ps : List Param} : ps.findSome? param? = none ↔ ∀ p ∈ ps, ParamFits p := by
  simp only [List.findSome?_eq_none_iff, param?_eq_none_iff]

theorem method?_eq_none_iff {m : Method} : method? m = none ↔ MethodFits m := by
  rw [method?, Option.or_eq_none_iff, params_eq_none_iff]
  constructor
  · rintro ⟨hparams, hreturn⟩
    exact ⟨hparams, by simpa using hreturn⟩
  · rintro ⟨hparams, hreturn⟩
    exact ⟨hparams, by simpa using hreturn⟩

theorem closure?_eq_none_iff {c : Closure} : closure? c = none ↔ ClosureFits c := by
  rw [closure?, Option.or_eq_none_iff, Option.or_eq_none_iff, params_eq_none_iff, Option.map_eq_none_iff,
    List.find?_eq_none]
  constructor
  · rintro ⟨hparams, hcaptures, hreturn⟩
    exact ⟨hparams, by simpa using hcaptures, by simpa using hreturn⟩
  · rintro ⟨hparams, hcaptures, hreturn⟩
    exact ⟨hparams, by simpa using hcaptures, by simpa using hreturn⟩

section Members

variable {c : Class} {seen : List String} {m : Member} {ms : List Member}

theorem members?_cons_ne_none (h : ¬ MemberFits m) : members? c seen (m :: ms) ≠ none := by
  cases m with
  | property d =>
    cases hstatic : d.modifiers.isStatic with
    | true => simp [members?, hstatic]
    | false => exact absurd (.property hstatic) h
  | const d => exact absurd .const h
  | method d =>
    cases habstract : d.modifiers.isAbstract with
    | true => simp [members?, habstract]
    | false =>
      cases hbody : d.body with
      | none => simp [members?, hbody]
      | some body =>
        cases hstatic : d.modifiers.isStatic with
        | true => simp [members?, habstract, hbody, hstatic]
        | false => exact absurd (.method habstract (by simp [hbody]) hstatic) h
  | traitUse ns => exact nofun

/-- A member that fits by itself may still have a name that stands before it. -/
theorem members?_cons (h : MemberFits m) : members? c seen (m :: ms) = none ↔
    (∀ n ∈ ownName? m, lower n ∉ seen) ∧ members? c ((ownName? m).toList.map lower ++ seen) ms = none := by
  cases h with
  | property hstatic => simp [members?, isNamed, ownName?, Member.name?, hstatic, ite_some_eq_none]
  | const => simp [members?, isNamed, ownName?, Member.name?, ite_some_eq_none]
  | @method d habstract hbody hstatic =>
    have hsome : d.body.isNone = false := Option.isNone_eq_false_iff.2 (Option.isSome_iff_ne_none.2 hbody)
    cases hconstructor : d.isConstructor <;>
      simp [members?, isNamed, ownName?, Member.name?, habstract, hsome, hstatic, hconstructor, ite_some_eq_none]

theorem members?_eq_none_iff : members? c seen ms = none ↔
    (∀ m ∈ ms, MemberFits m) ∧ (ms.filterMap ownName?).Pairwise (fun n n' => lower n ≠ lower n') ∧
      ∀ n ∈ ms.filterMap ownName?, lower n ∉ seen := by
  induction ms generalizing seen with
  | nil => simp [members?]
  | cons m ms ih =>
    by_cases hm : MemberFits m
    · rw [members?_cons hm, ih, List.forall_mem_cons, List.filterMap_cons]
      cases ownName? m with
      | none => simp [hm]
      | some n =>
        simp only [hm, true_and, Option.toList_some, List.map_cons, List.map_nil, List.singleton_append,
          List.pairwise_cons, List.mem_cons, Option.mem_some, forall_eq']
        grind
    · simp [members?_cons_ne_none hm, hm]

end Members

theorem class_eq_none_iff {c : Class} : members? c [] c.members = none ↔ ClassFits c := by
  rw [members?_eq_none_iff]
  exact ⟨fun ⟨hmembers, hnames, _⟩ => ⟨hmembers, hnames⟩, fun h => ⟨h.members, h.names, fun _ _ => List.not_mem_nil⟩⟩

/-! ## Expressions -/

theorem classRef?_eq_none_iff {c : ClassRef} : classRef? c = none ↔ ¬ Unnamed c := by
  cases c with
  | dynamic => exact ⟨nofun, fun h => absurd .dynamic h⟩
  | static => exact ⟨nofun, fun h => absurd .static h⟩
  | named | self | parent => exact ⟨fun _ => nofun, fun _ => rfl⟩

theorem args?_eq_none_iff {as : List Arg} : args? as = none ↔ ∀ a ∈ as, a.unpack = false := by
  simp [args?]

theorem isParent_iff {c : ClassRef} : isParent c = true ↔ c = .parent := by
  cases c <;> simp [isParent]

theorem isThis_iff {e : Expr} : e.isThis = true ↔ ∃ q s, e = .variable q "this" s := by
  cases e <;> simp [Expr.isThis, Expr.variableName?]

theorem memberName?_eq_none_iff {o : Expr} {n : MemberName} :
    memberName? o n = none ↔ ∀ e, n = .dynamic e → ∃ q s, o = .variable q "this" s := by
  cases n with
  | ident n => exact ⟨fun _ => nofun, fun _ => rfl⟩
  | dynamic e => grind [memberName?, isThis_iff]

section

attribute [local grind intro] Unsupported
attribute [local grind cases] Unsupported
attribute [local grind =] args?_eq_none_iff classRef?_eq_none_iff memberName?_eq_none_iff isParent_iff

theorem exprCause?_eq_none_iff {e : Expr} : exprCause? e = none ↔ ¬ Unsupported e := by
  cases e with
  | dynamicVariable => exact ⟨nofun, fun h => absurd .dynamicVariable h⟩
  | anonymousClass => exact ⟨nofun, fun h => absurd .anonymousClass h⟩
  | call p c as =>
    cases c with
    | dynamic => exact ⟨nofun, fun h => absurd .callee h⟩
    | named => grind [exprCause?]
  | staticCall p c n as => grind [exprCause?]
  | staticProperty p c n => grind [exprCause?]
  | classConst p c n => grind [exprCause?]
  | instanceOf p v c => grind [exprCause?]
  | new p c as => grind [exprCause?, Option.or_eq_none_iff]
  | property p o n b => grind [exprCause?]
  | methodCall p o n as b => grind [exprCause?, Option.or_eq_none_iff]
  | _ => exact ⟨fun _ => nofun, fun _ => rfl⟩

end

/-! ## Parts -/

theorem part?_expr {e : Expr} : part? (.expr e) = none ↔ ¬ Unsupported e := by
  rw [part?, Option.map_eq_none_iff, exprCause?_eq_none_iff]

end Subset

namespace SourceFile

theorem violation?_eq_none_iff_fits {f : SourceFile} : f.violation? = none ↔ f.Fits f.Contains := by
  rw [violation?, Option.or_eq_none_iff, firstFileLevel?_eq_none_iff, List.findSome?_eq_none_iff]
  constructor
  · rintro ⟨hlevel, hparts⟩
    have hpart {p : Part} (h : f.Contains p) : part? p = none := hparts p (mem_parts_iff.2 h)
    exact ⟨hlevel, fun c hc => class_eq_none_iff.1 (hpart hc), fun m hm => method?_eq_none_iff.1 (hpart hm),
      fun c hc => closure?_eq_none_iff.1 (hpart hc), fun e he => part?_expr.1 (hpart he)⟩
  · intro h
    refine ⟨h.fileLevel, fun p hp => ?_⟩
    have hp := mem_parts_iff.1 hp
    cases p with
    | expr e => exact part?_expr.2 (h.exprs e hp)
    | closure c => exact closure?_eq_none_iff.2 (h.closures c hp)
    | method m => exact method?_eq_none_iff.2 (h.methods m hp)
    | cls c => exact class_eq_none_iff.2 (h.classes c hp)
    | stmt | param | clause | iface => rfl

theorem Fits.mono {f : SourceFile} {P Q : Part → Prop} (h : f.Fits Q) (hP : ∀ p, P p → Q p) : f.Fits P :=
  ⟨h.fileLevel, fun _ hc => h.classes _ (hP _ hc), fun _ hm => h.methods _ (hP _ hm),
    fun _ hc => h.closures _ (hP _ hc), fun _ he => h.exprs _ (hP _ he)⟩

theorem Contains.holds {f : SourceFile} {p : Part} (h : f.Contains p) : f.Holds p := by
  induction h with
  | top hs => exact .top hs
  | within _ hq ih => exact .within ih hq

end SourceFile

/-! ## Interfaces without properties -/

/-- The part is no interface with a property. -/
def Part.Stateless : Part → Prop
  | .iface i => ∀ m ∈ i.members, m.property? = none
  | _ => True

/-- No interface has a property. -/
def SourceFile.Stateless (f : SourceFile) : Prop := ∀ p ∈ f.parts, p.Stateless

theorem Part.stateless_bare (p : Part) : p.bare.Stateless ↔ p.Stateless := by
  cases p with
  | iface i =>
    have hbare (m : Member) : m.bare.property? = none ↔ m.property? = none := by
      cases m <;> simp [Member.bare, Member.property?]
    simp [bare, Stateless, hbare]
  | _ => rfl

namespace SourceFile

variable {f : SourceFile}

/-- Nothing is out of reach of a walk. -/
theorem Stateless.contains (hf : f.Stateless) {p : Part} (h : f.Holds p) : f.Contains p := by
  induction h with
  | top hs => exact .top hs
  | within _ hq ih => exact .within ih hq
  | omitted _ hq ih =>
    obtain ⟨hd, -⟩ := hq
    have hnone := hf _ (mem_parts_iff.2 ih) _ hd
    cases hnone

theorem Stateless.violation?_iff_inSubset (hf : f.Stateless) : f.violation? = none ↔ f.InSubset := by
  rw [violation?_eq_none_iff_fits]
  exact ⟨fun h => h.mono fun _ hp => hf.contains hp, fun h => h.mono fun _ hp => hp.holds⟩

theorem parse_stateless {path text : String} (h : SourceFile.parse path text = .ok f) : f.Stateless := by
  intro q hq
  obtain ⟨p, hp, hq⟩ := List.mem_flatMap.1 hq
  obtain ⟨s, hs, rfl⟩ := List.mem_map.1 hp
  have hwritten := parse_written h s hs q hq
  cases q with
  | iface i => exact hwritten
  | _ => trivial

end SourceFile

namespace Simplify

def statelessShape : Shape Unit where
  enter _ _ := ()
  holds _ := Part.Stateless
  enter_expr _ _ := rfl
  enter_stmt _ _ := rfl
  enter_param _ _ := rfl
  enter_bare _ _ := rfl
  holds_bare _ := Part.stateless_bare

theorem stable_statelessShape : Stable statelessShape where
  names :=
    { expr := fun _ _ => trivial
      stmt := fun _ _ => trivial
      clause := fun _ _ => trivial
      param := fun _ _ => trivial
      cls := fun _ _ _ _ => trivial
      iface := fun _ _ h => h }
  owners := ⟨fun _ _ => trivial, fun _ _ => trivial⟩
  plain := ⟨fun _ _ => trivial, fun _ _ => trivial, fun _ _ _ _ _ => trivial, fun _ _ => trivial⟩
  guards := by constructor <;> intros <;> trivial

theorem admitsCallback_stateless : AdmitsCallback (fun _ => True) statelessShape statelessShape where
  enter := rfl
  inside _ _ := trivial
  kept _ _ _ h := h
  expr _ _ := trivial
  ret _ := trivial
  stop _ := trivial
  closure _ h := h

theorem admitsArrays_stateless : AdmitsArrays statelessShape statelessShape where
  enter := rfl
  kept _ h := h
  call := trivial
  array := trivial
  statement := trivial
  function := trivial
  callback _ := trivial
  binding _ := trivial
  body _ h := callbackBody_throughout admitsCallback_stateless trivial h

theorem admitsInitialisers_stateless : AdmitsInitialisers statelessShape := by
  intro b p pos name _
  refine throughout_stmt.2 ⟨trivial, ?_⟩
  rintro _ (_ | ⟨_, ⟨⟩⟩)
  refine throughout_expr.2 ⟨trivial, ?_⟩
  rintro _ (_ | ⟨_, _ | ⟨_, ⟨⟩⟩⟩)
  all_goals exact throughout_expr.2 ⟨trivial, by rintro _ ⟨⟩⟩

theorem statements_stateless {pipeline : Pipeline} {si : String} {ss out : List Stmt}
    (h : statements pipeline si ss = .ok out) (hss : ∀ s ∈ ss, Throughout statelessShape () (.stmt s)) :
    ∀ s ∈ out, Throughout statelessShape () (.stmt s) := by
  obtain ⟨resolved, hresolved, h⟩ := bind_eq_ok.1 h
  obtain ⟨listed, hlisted, h⟩ := bind_eq_ok.1 h
  cases h
  have htypes := types_throughout stable_statelessShape pipeline si
    (resolved_throughout stable_statelessShape hresolved hss)
  have hplain : ∀ s ∈ types pipeline si resolved, Throughout statelessShape () (.stmt s) := fun s hs => by
    refine (htypes s hs).imp (fun _ _ => True) (fun _ _ => trivial) ?_ trivial
    exact fun _ hold => hold.1.1.1.1.1
  have harrays := Carried.ofStmts
    ((arrays_sound admitsArrays_stateless).stmts _ () listed hlisted) trivial hplain
  exact Carried.ofStmts ((initialisers_sound admitsInitialisers_stateless).stmts listed ()) trivial harrays

end Simplify

namespace SourceFile

theorem simplify_stateless {pipeline : Pipeline} {si : String} {f g : SourceFile}
    (h : f.simplify pipeline si = .ok g) (hf : f.Stateless) : g.Stateless := by
  unfold simplify at h
  split at h
  · next hok =>
    cases h
    intro q hq
    obtain ⟨p, hp, hq⟩ := List.mem_flatMap.1 hq
    obtain ⟨s, hs, rfl⟩ := List.mem_map.1 hp
    have hss : ∀ s ∈ f.stmts, Throughout Simplify.statelessShape () (.stmt s) := fun s hs =>
      throughout_of_all fun q hq _ => hf q (List.mem_flatMap.2 ⟨_, List.mem_map_of_mem hs, hq⟩)
    exact (Simplify.statements_stateless hok hss s hs).all (fun h => h) q hq
  · cases h

/-! ## The check -/

/-- A file has no fault just if all that a walk gets to is supported. So no file of the subset is refused, and
where no interface has a property, only files of the subset are taken. That is so for what a text is read as and
for what is simplified from it. -/
theorem violation?_eq_none_iff (f : SourceFile) :
    (f.violation? = none ↔ f.Fits f.Contains) ∧ (f.InSubset → f.violation? = none) ∧
    (f.Stateless → (f.violation? = none ↔ f.InSubset)) ∧
    (∀ path text, parse path text = .ok f → (f.violation? = none ↔ f.InSubset)) ∧
    ∀ path text g pipeline si, parse path text = .ok g → g.simplify pipeline si = .ok f →
      (f.violation? = none ↔ f.InSubset) :=
  ⟨violation?_eq_none_iff_fits, fun h => violation?_eq_none_iff_fits.2 (h.mono fun _ hp => hp.holds),
    fun hf => hf.violation?_iff_inSubset, fun _ _ hparse => (parse_stateless hparse).violation?_iff_inSubset,
    fun _ _ _ _ _ hparse hg => (simplify_stateless hg (parse_stateless hparse)).violation?_iff_inSubset⟩

/-- An interface with a constant and a class that implements it. -/
def scaleText : String :=
  "<?php interface I \x7b const A = 1; function f($x); \x7d "
    ++ "class C implements I \x7b public $n = 2; function f($x) \x7b return $this->n + $x; \x7d \x7d"

/-- The text is read as a file of the subset, which is simplified to another. -/
theorem scaleText_inSubset : ∃ f g, parse "" scaleText = .ok f ∧ f.violation? = none ∧ f.InSubset ∧
    f.simplify .full "Api" = .ok g ∧ g.violation? = none ∧ g.InSubset := by
  obtain ⟨f, hparse, hf⟩ := exists_parse "" scaleText (toList_append_eq String.toList_ofList String.toList_ofList)
    (p := fun f => f.violation?.isNone && (f.simplify .full "Api").toOption.any (·.violation?.isNone))
    (by decide +kernel)
  obtain ⟨hnone, hsimplify⟩ := Bool.and_eq_true_iff.1 hf
  obtain ⟨g, hg, hgnone⟩ := exists_ok_of_any hsimplify
  have hfile := Option.isNone_iff_eq_none.1 hnone
  have hsimple := Option.isNone_iff_eq_none.1 hgnone
  obtain ⟨-, -, -, hparsed, -⟩ := violation?_eq_none_iff f
  obtain ⟨-, -, -, -, hsimplified⟩ := violation?_eq_none_iff g
  exact ⟨f, g, hparse, hfile, (hparsed "" scaleText hparse).1 hfile, hg, hsimple,
    (hsimplified "" scaleText f .full "Api" hparse hg).1 hsimple⟩

/-- The default of `$p` in `interface I { public $p = $$x; }`, which no text can say, is out of reach. -/
example :
    let e : Expr := .dynamicVariable .unknown (.variable .unknown "x" false)
    let i : Interface := ⟨"I", [], [.property ⟨"p", some e, {}, none, .unknown⟩], .unknown, none⟩
    let f : SourceFile := ⟨"", [.interfaceDecl i]⟩
    f.violation? = none ∧ ¬ f.InSubset := by
  intro e i f
  have hi : f.Holds (.iface i) := .within (.top (.head _)) .iface
  exact ⟨by decide +kernel, fun h => h.exprs e (.omitted hi (.interfaceProperty (.head _) rfl)) .dynamicVariable⟩

end SourceFile

end ClassScript
