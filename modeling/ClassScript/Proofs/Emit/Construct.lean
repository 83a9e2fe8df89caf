import ClassScript.Emit.Class
import ClassScript.Proofs.Emit.Safe
import ClassScript.Proofs.Emit.Keeps
import ClassScript.Proofs.Script.Constructed
import ClassScript.Proofs.Tree.Throughout
/-!
# Emission by constructors

All that expressions and statements are emitted as is made by constructors, whatever the source program,
out of names that emission has of its own and those that parts of the program are emitted with. So it has
each property that constructors hand on and that admits these names (`emitExpr_hereditary`,
`emitStmt_hereditary`).
-/

namespace ClassScript

open Emit Script

/-! ## Names -/

namespace Emit

/-- Functions of the prelude that emitted code calls on its own account. -/
def helperNames : List String :=
  ["__identical", "__isset", "__echo", copyName, instanceCheckName, "__toPhpArray", "__isType", "__gettype",
    "__empty", "__intval", "__floatval", "__strval", "__boolval", "__strpos"]

/-- The variables that emitted code has on its own account: those that it binds and those that it takes
from the program around it. -/
def generatedNames : List String :=
  [bucket .pub, bucket .prot, bucket .priv, rootName, parentBinding, exceptionName, constantsName, "parent",
    "inherited", "createClass", "instance", "extend", "construct", "arguments", "null", "undefined", "true",
    "false", "Math", "Array", "PhpArray", "String", "Number", "Boolean", "__boxed", baseClass] ++ helperNames ++
    Builtin.preludeFunctions

/-- The variable that a host object is found by. -/
def hostName? (n : Name) : Option String :=
  match n.parts with
  | first :: second :: _ => if first == nativeNamespace then some second else none
  | _ => none

end Emit

/-- The host objects that an expression itself names. -/
def Expr.hostNames : Expr → List String
  | .const _ n | .call _ (.named n) _ => (hostName? n).toList
  | .new _ (.named n) _ | .classConst _ (.named n) _ | .instanceOf _ _ (.named n) => (hostName? n).toList
  | _ => []

/-- The variables of the source that a part itself names. -/
def Part.sourceVariables : Part → List String
  | .expr (.variable _ n false) => if n == "this" then [] else [n]
  | .param p => [p.name]
  | .clause c => if c.var.isEmpty then [] else [c.var]
  | _ => []

/-- The names that a part itself hands on as they are: those of a variable that was made up and of host
objects. -/
def Part.verbatimNames : Part → List String
  | .expr (.variable _ n true) => if n == "this" then [] else [n]
  | .expr e => e.hostNames
  | .clause c => c.types.flatMap fun t => (hostName? t).toList
  | _ => []

/-- The names that a part is emitted with, without those of the parts below it. -/
def Part.emittedNames (p : Part) : List String := p.sourceVariables.map mangle ++ p.verbatimNames

/-- The names that a part and the parts below it are emitted with are admitted. -/
def Part.NamesAdmitted (admits : String → Prop) (p : Part) : Prop :=
  ∀ q ∈ p.all, ∀ s ∈ q.emittedNames, admits s

theorem Part.namesAdmitted_iff {admits : String → Prop} {p : Part} :
    p.NamesAdmitted admits ↔ (∀ s ∈ p.emittedNames, admits s) ∧ ∀ c ∈ p.children, c.NamesAdmitted admits :=
  forall_mem_all_iff

namespace Part.NamesAdmitted

variable {admits : String → Prop} {p : Part}

theorem own (h : p.NamesAdmitted admits) : ∀ s ∈ p.emittedNames, admits s := (namesAdmitted_iff.1 h).1

theorem below (h : p.NamesAdmitted admits) : ∀ c ∈ p.children, c.NamesAdmitted admits :=
  (namesAdmitted_iff.1 h).2

end Part.NamesAdmitted

namespace Emit

/-! ## What actions make -/

/-- Whatever the action gives has the property. -/
def Makes {ε α : Type} (b : Except ε α) (Q : α → Prop) : Prop := ∀ a, b = .ok a → Q a

namespace Makes

variable {ε α β : Type} {b : Except ε α} {P Q : α → Prop} {R : β → Prop}

theorem pure {a : α} (h : Q a) : Makes (Pure.pure a : Except ε α) Q := by
  rintro _ ⟨⟩
  exact h

theorem error (e : ε) : Makes (.error e) Q := nofun

/-- Nothing is said of what is given. -/
theorem any (b : Except ε α) : Makes b fun _ => True := fun _ _ => trivial

theorem bind {f : α → Except ε β} (h : Makes b P) (hf : ∀ a, P a → Makes (f a) R) :
    Makes (b >>= f) R := by
  intro y hy
  obtain ⟨a, ha, hy⟩ := bind_eq_ok.1 hy
  exact hf a (h a ha) y hy

theorem ite {c : Prop} [Decidable c] {b' : Except ε α} (h : Makes b Q) (h' : Makes b' Q) :
    Makes (if c then b else b') Q := by
  split
  · exact h
  · exact h'

theorem mapM {f : α → Except ε β} {l : List α} (h : ∀ a ∈ l, Makes (f a) R) :
    Makes (l.mapM f) fun ys => ∀ y ∈ ys, R y := by
  induction l with
  | nil => exact .pure nofun
  | cons a l ih =>
    rw [List.forall_mem_cons] at h
    rw [List.mapM_cons]
    exact h.1.bind fun y hy => (ih h.2).bind fun ys hys => .pure (List.forall_mem_cons.2 ⟨hy, hys⟩)

theorem lift {b : Built α} (h : Makes b Q) : Makes (liftM b : Result α) Q :=
  fun a ha => h a (mapError_eq_ok.1 ha)

end Makes

/-- The variables that a function has to declare are admitted. -/
def Admitted (admits : String → Prop) (frame : Option Frame) : Prop :=
  ∀ f ∈ frame, ∀ name ∈ f.hoisted, admits name

/-- The emission makes a function declare none but admitted variables, and what it gives has the
property. -/
abbrev Emits {α : Type} (admits : String → Prop) (act : Emission α) (Q : α → Prop) : Prop :=
  Keeps (Admitted admits) act Q

/-- What is emitted outside of functions. -/
theorem Keeps.makes {α : Type} {inv : Option Frame → Prop} {act : Emission α} {Q : α → Prop}
    (h : Keeps inv act Q) (hnone : inv none) : Makes (act.run' none) Q := by
  intro a ha
  obtain ⟨_, -, -, hQ⟩ := h.run' hnone ha
  exact hQ

/-- All nodes of a list have the property. -/
def EachNode (P : Node → Prop) (ns : List Node) : Prop := ∀ n ∈ ns, P n

namespace EachNode

variable {P : Node → Prop}

@[simp] theorem nil : EachNode P [] := nofun

@[simp] theorem cons {n : Node} {ns : List Node} : EachNode P (n :: ns) ↔ P n ∧ EachNode P ns :=
  List.forall_mem_cons

@[simp] theorem append {ns ns' : List Node} : EachNode P (ns ++ ns') ↔ EachNode P ns ∧ EachNode P ns' :=
  List.forall_mem_append

theorem flatten {nss : List (List Node)} (h : ∀ ns ∈ nss, EachNode P ns) : EachNode P nss.flatten := by
  intro n hn
  obtain ⟨ns, hns, hn⟩ := List.mem_flatten.1 hn
  exact h ns hns n hn

end EachNode

/-! ## Builtin functions -/

/-- What a call expands to has the property if the arguments have. -/
def Expansion.Preserves (P : Node → Prop) : Expansion → Prop
  | one f => ∀ a, P a → Makes (f a) P
  | two f => ∀ a b, P a → P b → Makes (f a b) P
  | three f => ∀ a b c, P a → P b → P c → Makes (f a b c) P
  | twoOrThree f | twoOrMore f => ∀ a b more, P a → P b → (∀ m ∈ more, P m) → Makes (f a b more) P
  | oneOrMore f => ∀ a more, P a → (∀ m ∈ more, P m) → Makes (f a more) P

theorem Expansion.Preserves.on {P : Node → Prop} {e : Expansion} (h : e.Preserves P) {args : List Node}
    (hargs : ∀ a ∈ args, P a) {b : Built Node} (hb : e.on? args = some b) : Makes b P := by
  cases e with
  | one f =>
    match args, hb with
    | [a], rfl => simp_all [Preserves]
  | two f =>
    match args, hb with
    | [a, b], rfl => simp_all [Preserves]
  | three f =>
    match args, hb with
    | [a, b, c], rfl => simp_all [Preserves]
  | twoOrThree f =>
    match args, hb with
    | [a, b], rfl => simp_all [Preserves]
    | [a, b, c], rfl => simp_all [Preserves]
  | oneOrMore f =>
    match args, hb with
    | a :: rest, rfl => simp_all [Preserves]
  | twoOrMore f =>
    match args, hb with
    | a :: b :: rest, rfl => simp_all [Preserves]

namespace Builtin

/-- A property that is kept by all that calls are spelled out with. -/
structure Closed (P : Node → Prop) : Prop where
  string (s : String) : P (.string s)
  null : P null
  identical {a b : Node} : P a → P b → Makes (binary "===" a b) P
  member {o : Node} {name : String} : P o → Makes (member o name) P
  methodCall {o : Node} {name : String} {args : List Node} : P o → (∀ a ∈ args, P a) →
    Makes (methodCall o name args) P
  helper (name : String) : name ∈ helperNames → ∀ args : List Node, (∀ a ∈ args, P a) →
    Makes (helper name args) P
  math {name : String} {args : List Node} : (∀ a ∈ args, P a) → Makes (math name args) P

section Closed

variable {P : Node → Prop} (hP : Closed P)
include hP

theorem Closed.convert (type : CastType) {n : Node} (h : P n) : Makes (convert type n) P := by
  cases type <;> exact hP.helper _ (by decide) _ (by simpa using h)

theorem Closed.replace {a b c : Node} (ha : P a) (hb : P b) (hc : P c) : Makes (replace a b c) P :=
  (hP.methodCall hc (by simpa using ha)).bind fun _ hn => hP.methodCall hn (by simpa using hb)

theorem Closed.explode {a b : Node} (ha : P a) (hb : P b) : Makes (explode a b) P :=
  (hP.methodCall hb (by simpa using ha)).bind fun _ hn => hP.helper _ (by decide) _ (by simpa using hn)

theorem functions_preserve : ∀ x ∈ functions, x.2.Preserves P := by
  have htype := hP.helper "__isType" (by decide)
  have hgettype := hP.helper "__gettype" (by decide)
  have hempty := hP.helper "__empty" (by decide)
  have hstrpos := hP.helper "__strpos" (by decide)
  simp +contextual only [functions, List.forall_mem_cons, Expansion.Preserves, typeTest, helper1, method1,
    method2, swapped, math1, htype, hgettype, hempty, hstrpos, hP.math, hP.convert, hP.replace, hP.explode,
    hP.methodCall, hP.identical, hP.member, hP.string, hP.null, implies_true, and_self, List.not_mem_nil,
    false_imp_iff]

theorem preserves_call {args : List Node} {name : String} {r : Result Node} (hargs : ∀ a ∈ args, P a)
    (h : call? name args = some r) : Makes r P := by
  obtain ⟨f, hf, rfl⟩ := Option.map_eq_some_iff.1 h
  have hpreserves := functions_preserve hP (lower name, f) (mem_of_lookup hf)
  split
  · next node hnode => exact .lift (hpreserves.on hargs hnode)
  · exact .error _

end Closed

end Builtin

section Hereditary

variable {admits : String → Prop} {P : Node → Prop} (hP : Hereditary admits P)
  (hown : ∀ s ∈ generatedNames, admits s)

include hP hown

theorem makes_own {name : String} (hname : name ∈ generatedNames) : Makes (ident name) P :=
  fun _ => hP.ident (hown name hname)

theorem null_hereditary : P null := hP.identifier (hown _ (by decide)) rfl

theorem closed_hereditary : Builtin.Closed P where
  string := hP.string
  null := null_hereditary hP hown
  identical ha hb _ := hP.binary ha hb
  member ho _ := hP.member ho
  methodCall ho h _ := hP.methodCall ho h
  helper name hname _ h := by
    have hgenerated : name ∈ generatedNames := List.mem_append_left _ (List.mem_append_right _ hname)
    exact (makes_own hP hown hgenerated).bind fun _ hc _ => hP.call hc h
  math h := .bind (fun _ => hP.path (hown "Math" (by decide))) fun _ hc _ => hP.call hc h

theorem constants_hereditary : ∀ x ∈ Builtin.constants, Makes x.2 P := by
  simp only [Builtin.constants, List.forall_mem_cons]
  exact ⟨.pure (hP.string _), .pure (hP.int _), fun _ => hP.path (hown "Math" (by decide)), List.forall_mem_nil _⟩

/-! ## References -/

omit hown in
theorem makes_native {n : Name} {b : Built Node} (h : nativePath? n = some b)
    (hhost : ∀ s ∈ (hostName? n).toList, admits s) : Makes b P := by
  unfold nativePath? at h
  unfold hostName? at hhost
  split at h
  · next first second rest hparts =>
    rw [hparts] at hhost
    split at h
    · next hfirst =>
      cases h
      simp only [hfirst, if_true, Option.toList_some, List.forall_mem_singleton] at hhost
      exact fun _ => hP.path hhost
    · cases h
  · cases h

theorem makes_instanceCheck {value : Node} (h : P value) {cls : Name}
    (hhost : ∀ s ∈ (hostName? cls).toList, admits s) : Makes (instanceCheck value cls) P := by
  unfold instanceCheck
  split
  · next native hnative => exact (makes_native hP hnative hhost).bind fun _ hn _ => hP.binary h hn
  · refine (makes_own hP hown (by decide)).bind fun _ hc _ => hP.call hc ?_
    simp [h, hP.string]

theorem makes_classPath (qualified : String) : Makes (classPath qualified) P :=
  fun _ => hP.path (hown rootName (by decide))

theorem makes_constantsPath (qualified : String) : Makes (constantsPath qualified) P :=
  (makes_classPath hP hown qualified).bind fun _ h _ => hP.member h

theorem emits_constantValue {n : Name} (hhost : ∀ s ∈ (hostName? n).toList, admits s) :
    Emits admits (constantValue n) P := by
  unfold constantValue
  split
  · next native h => exact .built (makes_native hP h hhost)
  · split
    · next value h => exact .built (constants_hereditary hP hown (n.joined, value) (mem_of_lookup h))
    · exact .fail _

theorem emits_functionCall {n : Name} {args : List Node} (h : EachNode P args)
    (hhost : ∀ s ∈ (hostName? n).toList, admits s) : Emits admits (functionCall n args) P := by
  unfold functionCall
  split
  · next native hnative =>
    exact (Keeps.built (makes_native hP hnative hhost)).bind fun _ hc => .built fun _ => hP.call hc h
  · dsimp only
    split
    · next hprelude =>
      -- a function of the prelude is called by its own name
      have hname : n.joined ∈ Builtin.preludeFunctions :=
        List.contains_iff_mem.1 (Bool.and_eq_true_iff.1 hprelude).1
      exact (Keeps.built (makes_own hP hown (List.mem_append_right _ hname))).bind fun _ hc =>
        .built fun _ => hP.call hc h
    · split
      · next node hnode => exact .result (Builtin.preserves_call (closed_hereditary hP hown) h hnode)
      · exact .fail _

theorem emits_instantiation (ctx : Context) {cls : Name} {args : List Node} (h : EachNode P args)
    (hhost : ∀ s ∈ (hostName? cls).toList, admits s) : Emits admits (instantiation ctx cls args) P := by
  unfold instantiation
  split
  · next native hnative =>
    exact (Keeps.built (makes_native hP hnative hhost)).bind fun _ hc => .built fun _ => hP.new hc h
  · refine .ite ?_ (.ite (.fail _) (.fail _))
    exact (Keeps.built (makes_classPath hP hown _)).bind fun _ hp =>
      (Keeps.built fun _ => hP.member hp).bind fun _ hc => .built fun _ => hP.call hc h

omit hP hown in
theorem emits_namedClass (c : ClassRef) : Emits admits (namedClass c) fun n => c = .named n := by
  cases c with
  | named n => exact .pure rfl
  | _ => exact .fail _

theorem emits_classConstant (ctx : Context) (cls : ClassRef) (constant : String)
    (hhost : ∀ n, cls = .named n → ∀ s ∈ (hostName? n).toList, admits s) :
    Emits admits (classConstant ctx cls constant) P := by
  refine (emits_namedClass cls).bind fun n hn => .ite (.pure (hP.string _)) ?_
  split
  · next native h =>
    exact (Keeps.built (makes_native hP h (hhost n hn))).bind fun _ ho => .built fun _ => hP.member ho
  · have table : Emits admits (do
        if ctx.constantsOwner == some n.joined then member (← ident constantsName) constant
        else propertyOf (← constantsPath n.joined) [← ident constant] : Emission Node) P :=
      .ite ((Keeps.built (makes_own hP hown (by decide))).bind fun _ ho => .built fun _ => hP.member ho)
        ((Keeps.built (makes_constantsPath hP hown _)).bind fun _ ho =>
          (Keeps.built (Q := fun key => ident constant = .ok key) fun _ hkey => hkey).bind fun _ hkey =>
            .built fun _ => hP.named ho hkey)
    refine .ite ?_ (.stop _ _)
    exact .ite table (.stop _ _)

/-! ## Operators, branches and parameters -/

theorem makes_binaryNode (op : BinaryOp) {l r : Node} (hl : P l) (hr : P r) : Makes (binaryNode op l r) P := by
  have hpair : EachNode P [l, r] := by simp [hl, hr]
  have hidentical : Makes (do call (← ident "__identical") [l, r]) P :=
    (makes_own hP hown (by decide)).bind fun _ hc _ => hP.call hc hpair
  unfold binaryNode
  split
  · exact fun _ => hP.methodCall hl (by simpa using hr)
  · exact .bind (fun _ => hP.path (hown "Math" (by decide))) fun _ hc _ => hP.call hc hpair
  · exact hidentical
  · exact hidentical.bind fun _ hn _ => hP.negate hn
  · exact .bind (fun _ => hP.negate hl) fun _ hl => .bind (fun _ => hP.negate hr) fun _ hr _ => hP.binary hl hr
  · exact fun _ => hP.binary hl hr

theorem makes_bucket (v : Visibility) : Makes (ident (bucket v)) P :=
  makes_own hP hown (by cases v <;> decide)

omit hP hown in
/-- A variable other than `$this` is emitted by a name that counts. -/
theorem admits_variable {p : Position} {name : String} {synthetic : Bool}
    (h : (Part.expr (.variable p name synthetic)).NamesAdmitted admits) (hthis : ¬(name == "this") = true) :
    admits (if synthetic then name else mangle name) := by
  refine h.own _ ?_
  cases synthetic <;> simp [Part.emittedNames, Part.sourceVariables, Part.verbatimNames, hthis]

theorem makes_variableNode {p : Position} {name : String} {synthetic : Bool}
    (h : (Part.expr (.variable p name synthetic)).NamesAdmitted admits) :
    Makes (variableNode name synthetic) P := by
  unfold variableNode
  split
  · exact makes_bucket hP hown .pub
  · next hthis =>
    have hname := admits_variable h hthis
    cases synthetic with
    | true => exact fun _ => hP.ident hname
    | false => exact fun _ => hP.ident hname

omit hP hown in
/-- All tests and bodies have the property. -/
def EachClause (P : Node → Prop) (bs : List (Node × List Node)) : Prop := ∀ b ∈ bs, P b.1 ∧ EachNode P b.2

omit hown in
theorem makes_branches {bs : List (Node × List Node)} (h : EachClause P bs) {ending : Option Node}
    (hending : ∀ n ∈ ending, P n) : Makes (branches bs ending) fun o => ∀ n ∈ o, P n := by
  induction bs with
  | nil => exact .pure hending
  | cons b bs ih =>
    obtain ⟨hb, hbs⟩ := List.forall_mem_cons.1 h
    refine (ih hbs).bind fun o ho => .bind (fun _ => hP.branch hb.1 hb.2 ho) fun n hn => .pure ?_
    simpa using hn

theorem makes_exception : Makes (ident exceptionName) P := makes_own hP hown (by decide)

theorem makes_handlerOf {clauses : List (Node × List Node)} (h : EachClause P clauses) :
    Makes (handlerOf clauses) (EachNode P) := by
  refine (makes_exception hP hown).bind fun _ hn => .bind (fun _ => hP.throwValue hn) fun _ hn =>
    .bind (fun _ => hP.block (by simpa using hn)) fun rethrow hn => ?_
  refine (makes_branches hP h (by simpa using hn)).bind fun o ho => .pure ?_
  simpa [EachNode] using ho

theorem makes_catchTests {types : List Name} (h : ∀ s ∈ types.flatMap fun t => (hostName? t).toList, admits s) :
    Makes (catchTests types) (EachNode P) := by
  refine .mapM fun t ht => (makes_exception hP hown).bind fun _ hn => ?_
  exact makes_instanceCheck hP hown hn fun s hs => h s (List.mem_flatMap.2 ⟨t, ht, hs⟩)

theorem makes_catchBinding {var : String} (h : var.isEmpty = false → admits (mangle var)) :
    Makes (catchBinding var) (EachNode P) := by
  unfold catchBinding
  split
  · exact .pure .nil
  · next hvar =>
    have hname := h (Bool.eq_false_iff.2 hvar)
    refine (makes_exception hP hown).bind fun e he => ?_
    exact .bind (fun _ => hP.declare hname (by simpa using he)) fun n hn => .pure (by simpa using hn)

omit hown in
theorem makes_sequence {ns : List Node} (h : EachNode P ns) : Makes (sequence ns) fun o => ∀ n ∈ o, P n := by
  cases ns with
  | nil => exact .pure nofun
  | cons n ns => exact .bind (fun _ => hP.chain h) fun n hn => .pure (by simpa using hn)

theorem makes_restArguments (index : Nat) : Makes (restArguments index) P := by
  refine .bind (fun _ => hP.path (hown "Array" (by decide))) fun _ hc =>
    (makes_own hP hown (by decide)).bind fun args hargs => ?_
  refine .bind (fun _ => hP.call hc (by simp [hargs, hP.int])) fun slice hslice => ?_
  exact (makes_own hP hown (by decide)).bind fun _ hc _ => hP.call hc (by simpa using hslice)

theorem makes_defaultStatement {name : String} (hname : admits name) {value : Node} (h : P value) :
    Makes (defaultStatement name value) P := by
  have hundefined : P undefined := hP.identifier (hown _ (by decide)) rfl
  refine .bind (fun _ => hP.ident hname) fun _ hn => .bind (fun _ => hP.binary hn hundefined) fun _ htest => ?_
  refine .bind (fun _ => hP.ident hname) fun _ hn => .bind (fun _ => hP.assign hn h) fun _ ha => ?_
  exact .bind (fun _ => hP.statement ha) fun _ hs _ => hP.branch htest (by simpa using hs) nofun

omit hown in
theorem emits_store {target : Expr} {emitted : Emission Node} (h : Emits admits emitted P)
    {value : Node} (hvalue : P value) : Emits admits (store target emitted value) P :=
  .ite (h.bind fun _ ht => .built fun _ => hP.assign ht hvalue) (.failAt _ _)

omit hP hown in
theorem emits_resolvedVisibility (v : Option Visibility) (what : String) :
    Emits admits (resolvedVisibility v what) fun _ => True := by
  cases v with
  | some v => exact .pure trivial
  | none => exact .fail _

theorem emits_thisMember {object : Expr} {name : MemberName} {v : Option Visibility} {pos : Position}
    {act : Emission Node} (h : thisMember? object name v pos = some act) : Emits admits act P := by
  unfold thisMember? at h
  split at h
  · cases h
    cases name with
    | ident n =>
      exact (emits_resolvedVisibility _ _).bind fun v _ =>
        (Keeps.built (makes_bucket hP hown v)).bind fun _ ho => .built fun _ => hP.member ho
    | dynamic e => exact .failAt _ _
  · cases h

/-! ## Functions -/

omit hP hown in
theorem emits_hoist {name : String} (h : admits name) : Emits admits (hoist name) fun _ => True := by
  refine Keeps.get.bind fun frame hframe => ?_
  cases frame with
  | none => exact .fail _
  | some f =>
    refine .ite (.pure trivial) ?_
    -- the frame is set to one with this variable behind the others
    rintro _ _ _ - ⟨⟩
    refine ⟨fun g hg => ?_, trivial⟩
    cases hg
    exact List.forall_mem_append.2 ⟨hframe f rfl, List.forall_mem_singleton.2 h⟩

omit hP hown in
theorem emits_declared {target : Expr} (h : (Part.expr target).NamesAdmitted admits) (declares : Option Bool) :
    Emits admits (declared? target declares) fun o => ∀ name ∈ o, admits name := by
  cases target with
  | «variable» p n synthetic =>
    cases synthetic with
    | true => exact .pure nofun
    | false =>
      dsimp only [declared?]
      split
      · exact .pure nofun
      · next hthis =>
        have hname := admits_variable h hthis
        cases declares with
        | none => exact .fail _
        | some d =>
          cases d with
          | false => exact .pure nofun
          | true => exact .pure (by simpa using hname)
  | _ => exact .pure nofun

omit hP hown in
/-- All parameters and statements have the property. -/
def EachPart (P : Node → Prop) (x : List Node × List Node) : Prop := EachNode P x.1 ∧ EachNode P x.2

theorem emits_closeFunction (isConstructor : Bool) {params stmts : List Node} (hparams : EachNode P params)
    (hstmts : EachNode P stmts) {hoisted : List String} (hhoisted : ∀ name ∈ hoisted, admits name) :
    Emits admits (closeFunction isConstructor params stmts hoisted) P := by
  have rest (ending : List Node) (hending : EachNode P ending) : Emits admits (do
      let declared ← hoisted.mapM (fun n => (declare n none : Emission Node))
      function params (declared ++ stmts ++ ending) : Emission Node) P := by
    refine (Keeps.forall_mapM fun name hname => .built fun _ => hP.declare (hhoisted name hname) (by simp)).bind
      fun declared hdeclared => ?_
    exact .built fun _ => hP.function hparams (EachNode.append.2 ⟨EachNode.append.2 ⟨hdeclared, hstmts⟩, hending⟩)
  unfold closeFunction
  cases isConstructor with
  | true =>
    refine (Keeps.built (makes_bucket hP hown .pub)).bind fun _ hn =>
      (Keeps.built fun _ => hP.ret (by simpa using hn)).bind fun n hn => ?_
    exact rest [n] (by simpa using hn)
  | false => exact rest [] .nil

theorem emits_functionOf (isConstructor : Bool) {parts : Emission (List Node × List Node)}
    (h : Emits admits parts (EachPart P)) : Emits admits (functionOf isConstructor parts) P := by
  intro frame n frame' hframe hn
  rw [functionOf_run] at hn
  obtain ⟨⟨x, inner⟩, hparts, hn⟩ := bind_eq_ok.1 hn
  -- the function starts with a frame of its own, in which no variable has come up
  have hstart : Admitted admits (some { isConstructor }) := by
    rintro _ ⟨⟩
    exact nofun
  obtain ⟨hinner, hparams, hstmts⟩ := h _ x inner hstart hparts
  refine emits_closeFunction hP hown isConstructor hparams hstmts ?_ frame n frame' hframe hn
  cases inner with
  | none => exact nofun
  | some f => exact hinner f rfl

/-! ## Expressions and statements -/

-- Some of these use the hypotheses only through one another.
set_option linter.unusedSectionVars false in
mutual

variable (ctx : Context)

theorem emitExpr_hereditary : (e : Expr) → (Part.expr e).NamesAdmitted admits → Emits admits (emitExpr ctx e) P
  | .variable p n s, h => .located (.built (makes_variableNode hP hown h)) p
  | .int p v, _ => .located (.pure (hP.int v)) p
  | .float p v, _ => .located (.pure (hP.float v)) p
  | .string p v, _ => .located (.pure (hP.string v)) p
  | .bool p true, _ => .located (.pure (hP.identifier (hown "true" (by decide)) rfl)) p
  | .bool p false, _ => .located (.pure (hP.identifier (hown "false" (by decide)) rfl)) p
  | .null p, _ => .located (.pure (null_hereditary hP hown)) p
  | .const p n, h => .located (emits_constantValue hP hown h.own) p
  | .anonymousClass p, _ => .located (.fail _) p
  | .dynamicVariable p _, _ => .located (.fail _) p
  | .array p .., _ => .located (.fail _) p
  | .index p .., _ => .located (.fail _) p
  | .assignOp p .., _ => .located (.fail _) p
  | .step p .., _ => .located (.fail _) p
  | .staticCall p .., _ => .located (.fail _) p
  | .staticProperty p .., _ => .located (.fail _) p
  | .property p o n v, h => by
    have ho := emitExpr_hereditary o (h.below _ (.head _))
    have hmember := fun object (hobject : P object) =>
      emitMember_hereditary hobject n (List.forall_mem_cons.1 h.below).2
    rw [emitExpr_property]
    refine Keeps.located ?_ p
    split
    · next node hnode => exact emits_thisMember hP hown hnode
    · exact ho.bind hmember
  | .methodCall p o n as v, h => by
    obtain ⟨hn, has⟩ := List.forall_mem_append.1 (List.forall_mem_cons.1 h.below).2
    have ho := emitExpr_hereditary o (h.below _ (.head _))
    have hmember := fun object (hobject : P object) => emitMember_hereditary hobject n hn
    have hargs := emitArgs_hereditary as has
    have hcall (callee : Node) (hcallee : P callee) :
        Emits admits (do call callee (← emitArgs ctx as) : Emission Node) P :=
      hargs.bind fun _ has => .built fun _ => hP.call hcallee has
    refine Keeps.located ?_ p
    show Emits admits (match thisMember? o n v p with
      | some node => do
        let callee ← node
        call callee (← emitArgs ctx as)
      | none => do
        let callee ← emitMember ctx (← emitExpr ctx o) n
        call callee (← emitArgs ctx as)) P
    split
    · next node hnode => exact (emits_thisMember hP hown hnode).bind hcall
    · exact ho.bind fun object hobject => (hmember object hobject).bind hcall
  | .classConst p c n, h => .located (emits_classConstant hP hown ctx c n (by rintro n rfl; exact h.own)) p
  | .call p (.named n) as, h => .located ((emitArgs_hereditary as h.below).bind fun _ has =>
      emits_functionCall hP hown has h.own) p
  | .call p (.dynamic _) _, _ => .located (.fail _) p
  | .new p c as, h => by
    have hargs := emitArgs_hereditary as (List.forall_mem_append.1 h.below).2
    refine .located ((emits_namedClass c).bind fun n hn => hargs.bind fun _ has => ?_) p
    subst hn
    exact emits_instantiation hP hown ctx has h.own
  | .assign p t v d, h => by
    have ht := emitExpr_hereditary t (h.below _ (.head _))
    have hv := emitExpr_hereditary v (h.below _ (.tail _ (.head _)))
    refine .located (hv.bind fun v hv => (emits_declared (h.below _ (.head _)) d).bind fun n hn => ?_) p
    cases n with
    | none => exact emits_store hP ht hv
    | some n =>
      have hname := hn n rfl
      exact (emits_hoist hname).bind fun _ _ => (Keeps.built fun _ => hP.ident hname).bind fun _ hn =>
        .built fun _ => hP.assign hn hv
  | .binary p op l r, h => by
    have hl := emitExpr_hereditary l (h.below _ (.head _))
    have hr := emitExpr_hereditary r (h.below _ (.tail _ (.head _)))
    exact .located (hl.bind fun _ hl => hr.bind fun _ hr => .built (makes_binaryNode hP hown op hl hr)) p
  | .unary p op e, h => by
    have he := emitExpr_hereditary e (h.below _ (.head _))
    exact .located (he.bind fun _ he => .built fun _ => hP.unary he) p
  | .ternary p c (some t) o, h => by
    have hc := emitExpr_hereditary c (h.below _ (.head _))
    have ht := emitExpr_hereditary t (h.below _ (.tail _ (.head _)))
    have ho := emitExpr_hereditary o (h.below _ (.tail _ (.tail _ (.head _))))
    exact .located (hc.bind fun _ hc => ho.bind fun _ ho => ht.bind fun _ ht =>
      .built fun _ => hP.ternary hc ht ho) p
  | .ternary p c none o, h => by
    have hc := emitExpr_hereditary c (h.below _ (.head _))
    have ho := emitExpr_hereditary o (h.below _ (.tail _ (.head _)))
    exact .located (hc.bind fun _ hc => ho.bind fun _ ho => .built fun _ => hP.chain (by simp [hc, ho])) p
  | .instanceOf p v c, h => by
    have hv := emitExpr_hereditary v (h.below _ (.head _))
    refine .located ((emits_namedClass c).bind fun n hn => hv.bind fun _ hv => ?_) p
    subst hn
    exact .built (makes_instanceCheck hP hown hv h.own)
  | .cast p t e, h => by
    have he := emitExpr_hereditary e (h.below _ (.head _))
    exact .located (he.bind fun _ he => .built ((closed_hereditary hP hown).convert t he)) p
  | .isset p es, h => by
    refine .located ((emitExprs_hereditary es h.below).bind fun ns hns => ?_) p
    refine (Keeps.forall_mapM fun n hn => ?_).bind fun _ hchecks => .built fun _ => hP.chain hchecks
    exact (Keeps.built (makes_own hP hown (by decide))).bind fun _ hc => .built fun _ =>
      hP.call hc (by simpa using hns n hn)
  | .closure p c, h => .located (emitClosure_hereditary c (h.below _ (.head _))) p

theorem emitMember_hereditary {object : Node} (hobject : P object) : (n : MemberName) →
    (∀ c ∈ Part.ofMemberName n, c.NamesAdmitted admits) → Emits admits (emitMember ctx object n) P
  | .ident _, _ => .built fun _ => hP.member hobject
  | .dynamic e, h => (emitExpr_hereditary e (h _ (.head _))).bind fun _ he =>
    .built fun _ => hP.computed hobject he

theorem emitExprs_hereditary : (es : List Expr) → (∀ c ∈ Part.exprs es, c.NamesAdmitted admits) →
    Emits admits (emitExprs ctx es) (EachNode P)
  | [], _ => .pure .nil
  | e :: rest, h => (emitExpr_hereditary e (h _ (.head _))).bind fun _ he =>
    (emitExprs_hereditary rest (List.forall_mem_cons.1 h).2).bind fun _ hrest =>
      .pure (EachNode.cons.2 ⟨he, hrest⟩)

theorem emitArgs_hereditary : (as : List Arg) → (∀ c ∈ Part.ofArgs as, c.NamesAdmitted admits) →
    Emits admits (emitArgs ctx as) (EachNode P)
  | [], _ => .pure .nil
  | ⟨v, _⟩ :: rest, h => (emitExpr_hereditary v (h _ (.head _))).bind fun _ hv =>
    (emitArgs_hereditary rest (List.forall_mem_cons.1 h).2).bind fun _ hrest =>
      .pure (EachNode.cons.2 ⟨hv, hrest⟩)

theorem emitClosure_hereditary : (c : Closure) → (Part.closure c).NamesAdmitted admits →
    Emits admits (emitClosure ctx c) P
  | ⟨ps, _, b, _, _, _⟩, h => by
    obtain ⟨hps, hb⟩ := List.forall_mem_append.1 h.below
    exact emits_functionOf hP hown false ((emitParams_hereditary 0 ps hps).bind fun _ hps =>
      (emitStmts_hereditary b hb).bind fun _ hb => .pure ⟨hps.1, EachNode.append.2 ⟨hps.2, hb⟩⟩)

theorem emitParams_hereditary (index : Nat) : (ps : List Param) →
    (∀ c ∈ ps.map Part.param, c.NamesAdmitted admits) → Emits admits (emitParams ctx index ps) (EachPart P)
  | [], _ => .pure ⟨.nil, .nil⟩
  | ⟨n, _, _, _, true, _, _⟩ :: rest, h => by
    have hname : admits (mangle n) := (h _ (.head _)).own _ (.head _)
    have hrest := emitParams_hereditary (index + 1) rest (List.forall_mem_cons.1 h).2
    exact (Keeps.built (makes_restArguments hP hown index)).bind fun _ hv =>
      (Keeps.built fun _ => hP.declare hname (by simpa using hv)).bind fun _ hd =>
        hrest.bind fun _ hrest => .pure ⟨hrest.1, EachNode.cons.2 ⟨hd, hrest.2⟩⟩
  | ⟨n, _, d, _, false, _, _⟩ :: rest, h => by
    have hname : admits (mangle n) := (h _ (.head _)).own _ (.head _)
    have hd := emitDefault_hereditary hname d (h _ (.head _)).below
    have hrest := emitParams_hereditary (index + 1) rest (List.forall_mem_cons.1 h).2
    exact (Keeps.built fun _ => hP.ident hname).bind fun _ hn => hd.bind fun _ hd =>
      hrest.bind fun _ hrest => .pure ⟨EachNode.cons.2 ⟨hn, hrest.1⟩, EachNode.append.2 ⟨hd, hrest.2⟩⟩

theorem emitDefault_hereditary {name : String} (hname : admits name) : (d : Option Expr) →
    (∀ c ∈ Part.exprs d.toList, c.NamesAdmitted admits) → Emits admits (emitDefault ctx name d) (EachNode P)
  | none, _ => .pure .nil
  | some e, h => (emitExpr_hereditary e (h _ (.head _))).bind fun _ he =>
    (Keeps.built (makes_defaultStatement hP hown hname he)).bind fun _ hs => .pure (by simpa using hs)

theorem emitStmts_hereditary : (ss : List Stmt) → (∀ c ∈ Part.stmts ss, c.NamesAdmitted admits) →
    Emits admits (emitStmts ctx ss) (EachNode P)
  | [], _ => .pure .nil
  | s :: rest, h => (emitStmt_hereditary s (h _ (.head _))).bind fun _ hs =>
    (emitStmts_hereditary rest (List.forall_mem_cons.1 h).2).bind fun _ hrest =>
      .pure (EachNode.cons.2 ⟨hs, hrest⟩)

theorem emitOptional_hereditary : (o : Option (List Stmt)) →
    (∀ c ∈ Part.stmts (o.getD []), c.NamesAdmitted admits) → ∀ ss ∈ o, Emits admits (emitStmts ctx ss) (EachNode P)
  | none, _ => nofun
  | some ss, h => by rintro _ ⟨⟩; exact emitStmts_hereditary ss h

theorem emitStmt_hereditary : (s : Stmt) → (Part.stmt s).NamesAdmitted admits → Emits admits (emitStmt ctx s) P
  | .expression e, h => by
    have he := emitExpr_hereditary e (h.below _ (.head _))
    cases e with
    | assign p t v d =>
      have hparts := (h.below _ (.head _)).below
      have ht := emitExpr_hereditary t (hparts _ (.head _))
      have hv := emitExpr_hereditary v (hparts _ (.tail _ (.head _)))
      refine .located ((emits_declared (hparts _ (.head _)) d).bind fun n hn => ?_) p
      cases n with
      | some n => exact hv.bind fun _ hv => .built fun _ => hP.declare (hn n rfl) (by simpa using hv)
      | none => exact hv.bind fun v hv => (emits_store hP ht hv).bind fun _ hs => .built fun _ => hP.statement hs
    | _ => exact .located (he.bind fun _ he => .built fun _ => hP.statement he) _
  | .echo p es, h => by
    have hes := emitExprs_hereditary es h.below
    exact .located ((Keeps.built (makes_own hP hown (by decide))).bind fun _ hc => hes.bind fun _ hes =>
      (Keeps.built fun _ => hP.call hc hes).bind fun _ hs => .built fun _ => hP.statement hs) p
  | .ret p (some e), h => by
    have he := emitExpr_hereditary e (h.below _ (.head _))
    exact .located (he.bind fun _ he => .built fun _ => hP.ret (by simpa using he)) p
  | .ret p none, _ => .located (Keeps.get.bind fun _ _ =>
      .ite ((Keeps.built (makes_bucket hP hown .pub)).bind fun _ hn => .built fun _ => hP.ret (by simpa using hn))
        (.built fun _ => hP.ret (by simp))) p
  | .branch p c t ei o, h => by
    obtain ⟨hc, hrest⟩ := List.forall_mem_cons.1 h.below
    obtain ⟨hbodies, ho⟩ := List.forall_mem_append.1 hrest
    obtain ⟨ht, hei⟩ := List.forall_mem_append.1 hbodies
    have hbody := emitOptional_hereditary o ho
    have hend {elseIfs c t ending} (hc : P c) (ht : EachNode P t) (hei : EachClause P elseIfs)
        (hending : ∀ n ∈ ending, P n) :
        Emits admits (do branch c t (← branches elseIfs ending) : Emission Node) P :=
      (Keeps.built (makes_branches hP hei hending)).bind fun _ ho => .built fun _ => hP.branch hc ht ho
    rw [emitStmt_branch]
    refine .located ((emitExpr_hereditary c hc).bind fun c hc => (emitStmts_hereditary t ht).bind fun t ht =>
      (emitElseIfs_hereditary ei hei).bind fun ei hei => ?_) p
    cases o with
    | none => exact hend hc ht hei nofun
    | some b =>
      exact (hbody b rfl).bind fun _ hb => (Keeps.built fun _ => hP.block hb).bind fun n hn =>
        hend hc ht hei (by simpa using hn)
  | .whileLoop p c b, h => by
    obtain ⟨hc, hb⟩ := List.forall_mem_cons.1 h.below
    exact .located ((emitExpr_hereditary c hc).bind fun _ hc => (emitStmts_hereditary b hb).bind fun _ hb =>
      .built fun _ => hP.whileLoop hc hb) p
  | .forLoop p i c s b, h => by
    obtain ⟨hheader, hb⟩ := List.forall_mem_append.1 h.below
    obtain ⟨hic, hs⟩ := List.forall_mem_append.1 hheader
    obtain ⟨hi, hc⟩ := List.forall_mem_append.1 hic
    have rest (_ : Unit) : Emits admits (do
        let i ← emitExprs ctx i
        let c ← emitExprs ctx c
        let s ← emitExprs ctx s
        forLoop (← sequence i) c.head? (← sequence s) (← emitStmts ctx b) : Emission Node) P := by
      refine (emitExprs_hereditary i hi).bind fun _ hi => (emitExprs_hereditary c hc).bind fun _ hc =>
        (emitExprs_hereditary s hs).bind fun _ hs => ?_
      refine (Keeps.built (makes_sequence hP hi)).bind fun _ hi =>
        (Keeps.built (makes_sequence hP hs)).bind fun _ hs => (emitStmts_hereditary b hb).bind fun _ hb => ?_
      exact .built fun _ => hP.forLoop hi (fun n hn => hc n (List.mem_of_mem_head? hn)) hs hb
    exact .located (.ite (.stop _ _) (rest ())) p
  | .breakLoop p, _ => .located (.pure hP.breakLoop) p
  | .continueLoop p, _ => .located (.pure hP.continueLoop) p
  | .throwValue p e, h => by
    have he := emitExpr_hereditary e (h.below _ (.head _))
    exact .located (he.bind fun _ he => .built fun _ => hP.throwValue he) p
  | .tryCatch p b cs f, h => by
    obtain ⟨hbodies, hf⟩ := List.forall_mem_append.1 h.below
    obtain ⟨hb, hcs⟩ := List.forall_mem_append.1 hbodies
    have hcleanup := emitOptional_hereditary f hf
    have rest {b handler} (hb : EachNode P b) (hhandler : ∀ x ∈ handler, admits x.1 ∧ EachNode P x.2) :
        Emits admits (match f with
          | some ss => do
            let cleanup ← pure (some (← emitStmts ctx ss))
            tryCatch b handler cleanup
          | none => do
            let cleanup ← pure none
            tryCatch b handler cleanup : Emission Node) P := by
      cases f with
      | none => exact .built fun _ => hP.tryCatch hb hhandler nofun
      | some ss => exact (hcleanup ss rfl).bind fun _ hss => .built fun _ =>
          hP.tryCatch hb hhandler (by rintro _ ⟨⟩; exact hss)
    rw [emitStmt_tryCatch]
    refine .located ((emitStmts_hereditary b hb).bind fun b hb => (emitCatches_hereditary cs hcs).bind
      fun clauses hclauses => ?_) p
    refine .ite (rest hb nofun) ((Keeps.built (makes_handlerOf hP hown hclauses)).bind fun _ hhandler => ?_)
    refine rest hb ?_
    rintro _ ⟨⟩
    exact ⟨hown exceptionName (by decide), hhandler⟩
  | .block p b, h => .located ((emitStmts_hereditary b h.below).bind fun _ hb => .built fun _ => hP.block hb) p
  | .nop p, _ => .located (.pure hP.nop) p
  | .foreach p .., _ => .located (.fail _) p
  | .nsBlock p .., _ => .located (.fail _) p
  | .imports p .., _ => .located (.fail _) p
  | .classDecl c, _ => .located (.fail _) c.pos
  | .interfaceDecl i, _ => .located (.fail _) i.pos
  | .functionDecl p .., _ => .located (.fail _) p

theorem emitElseIfs_hereditary : (bs : List ElseIf) → (∀ c ∈ Part.elseIfs bs, c.NamesAdmitted admits) →
    Emits admits (emitElseIfs ctx bs) (EachClause P)
  | [], _ => .pure nofun
  | ⟨c, b⟩ :: rest, h => by
    obtain ⟨hc, hbelow⟩ := List.forall_mem_cons.1 h
    obtain ⟨hb, hrest⟩ := List.forall_mem_append.1 hbelow
    exact (emitExpr_hereditary c hc).bind fun _ hc => (emitStmts_hereditary b hb).bind fun _ hb =>
      (emitElseIfs_hereditary rest hrest).bind fun _ hrest => .pure (List.forall_mem_cons.2 ⟨⟨hc, hb⟩, hrest⟩)

theorem emitCatches_hereditary : (cs : List Catch) → (∀ c ∈ cs.map Part.clause, c.NamesAdmitted admits) →
    Emits admits (emitCatches ctx cs) (EachClause P)
  | [], _ => .pure nofun
  | ⟨ts, v, b, p⟩ :: rest, h => by
    obtain ⟨hv, hts⟩ := List.forall_mem_append.1 (h _ (.head _)).own
    have hv : v.isEmpty = false → admits (mangle v) := fun hvar => hv _ (by simp [Part.sourceVariables, hvar])
    have hb := emitStmts_hereditary b (h _ (.head _)).below
    have hrest := emitCatches_hereditary rest (List.forall_mem_cons.1 h).2
    exact (Keeps.built (makes_catchTests hP hown hts)).bind fun _ hts =>
      (Keeps.built (makes_catchBinding hP hown hv)).bind fun _ hv => hb.bind fun _ hb =>
        (Keeps.located (.built fun _ => hP.chain hts) p).bind fun _ ht => hrest.bind fun _ hrest =>
          .pure (List.forall_mem_cons.2 ⟨⟨ht, EachNode.append.2 ⟨hv, hb⟩⟩, hrest⟩)

end

end Hereditary

end Emit

end ClassScript
