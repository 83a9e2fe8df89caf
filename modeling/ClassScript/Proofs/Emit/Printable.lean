import ClassScript.Compile
import ClassScript.Proofs.Emit.Construct
import ClassScript.Proofs.Grammar.Statement
import ClassScript.Proofs.Tree.Contains
import ClassScript.Proofs.Tree.Outline
/-!
# Emitted code can be printed

Classes and interfaces are emitted by constructors as well (`Class.emit_hereditary`,
`Interface.emit_hereditary`), so the statements that declare them are well formed and have a text
(`emitted_prints`).
-/

namespace ClassScript.Emit

open Script

section Hereditary

variable {admits : String → Prop} {P : Node → Prop} (hP : Hereditary admits P)
  (hown : ∀ s ∈ generatedNames, admits s) (ctx : Context)

include hP hown

/-! ## Classes -/

theorem emitFunction_hereditary {m : Method} {body : List Stmt}
    (hparams : ∀ c ∈ m.params.map Part.param, c.NamesAdmitted admits)
    (hbody : ∀ c ∈ Part.stmts body, c.NamesAdmitted admits) : Emits admits (emitFunction ctx m body) P :=
  .located (emits_functionOf hP hown m.isConstructor ((emitParams_hereditary hP hown ctx 0 m.params hparams).bind
    fun ⟨_, _⟩ hps => (emitStmts_hereditary hP hown ctx body hbody).bind fun _ hb =>
      .pure ⟨hps.1, EachNode.append.2 ⟨hps.2, hb⟩⟩)) m.pos

theorem makes_memberStatement (v : Visibility) (name : String) {value : Node} (h : P value) :
    Makes (memberStatement v name value) P :=
  (makes_bucket hP hown v).bind fun _ ho => .bind (fun _ => hP.member ho) fun _ ht =>
    .bind (fun _ => hP.assign ht h) fun _ ha _ => hP.statement ha

theorem emitMethod_hereditary (cls : String) {m : Method} (h : (Part.method m).NamesAdmitted admits) :
    Emits admits (emitMethod ctx cls m) P := by
  obtain ⟨hparams, hbody⟩ := List.forall_mem_append.1 h.below
  obtain heq | heq | ⟨body, hm, heq⟩ := emitMethod_cases ctx cls m <;> rw [heq]
  · exact .failAt _ _
  · exact .failAt _ _
  · rw [hm] at hbody
    exact (emits_resolvedVisibility _ _).bind fun v _ =>
      (emitFunction_hereditary hP hown ctx hparams hbody).bind fun _ hf =>
        .built (makes_memberStatement hP hown v m.name hf)

theorem emitProperty_hereditary (cls : String) {d : Property}
    (h : ∀ e ∈ d.default, (Part.expr e).NamesAdmitted admits) : Emits admits (emitProperty ctx cls d) P := by
  unfold emitProperty
  refine (emits_resolvedVisibility _ _).bind fun v _ => ?_
  cases hd : d.default with
  | some e =>
    exact (Keeps.located (emitExpr_hereditary hP hown ctx e (h e hd)) d.pos).bind fun _ he =>
      .built (makes_memberStatement hP hown v d.name he)
  | none => exact .built (makes_memberStatement hP hown v d.name (null_hereditary hP hown))

theorem emitInstanceMember_hereditary {c : Class} (hc : (Part.cls c).NamesAdmitted admits) {m : Member}
    (hm : m ∈ c.members) : Emits admits (emitInstanceMember ctx c m) (EachNode P) := by
  cases m with
  | property d =>
    have hd (e : Expr) (he : e ∈ d.default) : (Part.expr e).NamesAdmitted admits :=
      hc.below _ (Part.mem_members.2 ⟨_, hm, .inl ⟨d, e, rfl, he, rfl⟩⟩)
    exact (emitProperty_hereditary hP hown ctx _ hd).bind fun _ hn => .pure (by simpa using hn)
  | method d =>
    have hd := hc.below _ (Part.mem_members.2 ⟨_, hm, .inr (.inr ⟨d, rfl, rfl⟩)⟩)
    exact .ite (.pure .nil) ((emitMethod_hereditary hP hown ctx _ hd).bind fun _ hn =>
      .pure (by simpa using hn))
  | const d => exact .pure .nil
  | traitUse _ => exact .failAt _ _

theorem makes_ownPath {name : String} {rest : List String} (hname : name ∈ generatedNames) :
    Makes (path (name :: rest)) P := fun _ => hP.path (hown name hname)

/-- The declaration of a variable that emission has of its own. -/
theorem makes_ownDeclare {name : String} {value : Node} (hname : name ∈ generatedNames) (h : P value) :
    Makes (declare name (some value)) P := fun _ => hP.declare (hown name hname) (by simpa using h)

theorem makes_instanceStart : Makes instanceStart (EachNode P) := by
  have hpublic := makes_bucket hP hown .pub
  have hprotected := makes_bucket hP hown .prot
  have hinherited {rest : List String} : Makes (path ("inherited" :: rest)) P := makes_ownPath hP hown (by decide)
  refine hinherited.bind fun _ hp => (makes_ownDeclare hP hown (by decide) hp).bind fun _ h₁ => ?_
  refine hinherited.bind fun _ hp => (makes_ownDeclare hP hown (by decide) hp).bind fun _ h₂ => ?_
  refine .bind (fun _ => hP.object (by simp)) fun _ ho =>
    (makes_ownDeclare hP hown (by decide) ho).bind fun _ h₃ => ?_
  refine (makes_own hP hown (by decide)).bind fun _ hc => hprotected.bind fun _ ha => hpublic.bind fun _ hb =>
    .bind (fun _ => hP.call hc (by simp [ha, hb])) fun _ hcall => ?_
  refine (makes_ownDeclare hP hown (by decide) hcall).bind fun _ h₄ => ?_
  refine (makes_own hP hown (by decide)).bind fun _ ho => .bind (fun _ => hP.member ho) fun _ ht =>
    hinherited.bind fun _ hp => .bind (fun _ => hP.assign ht hp) fun _ ha =>
      .bind (fun _ => hP.statement ha) fun _ h₅ => ?_
  exact .pure (by simp [h₁, h₂, h₃, h₄, h₅])

omit hown in
/-- The function that tells the class of an instance has a parameter, and asks the parent. -/
theorem makes_instanceHook (hname : admits "name") (hparent : admits parentBinding) (name : String) :
    Makes (instanceHook ctx name) P := by
  have hparameter : Makes (liftM (ident "name") : Result Node) P := .lift fun _ => hP.ident hname
  refine hparameter.bind fun _ hn => .bind (.lift fun _ => hP.binary hn (hP.string _)) fun own hown => ?_
  refine .bind (.lift fun _ => hP.ident hparent) fun _ hp => hparameter.bind fun _ hn =>
    .bind (.lift fun _ => hP.methodCall hp (by simpa using hn)) fun parent hparent => ?_
  refine (Makes.any _).bind fun interfaces _ => .bind (.mapM (R := P) fun i _ => ?_) fun checks hchecks => ?_
  · exact hparameter.bind fun _ hn => .lift fun _ => hP.binary hn (hP.string _)
  · have hall : EachNode P (own :: parent :: checks) := EachNode.cons.2 ⟨hown, EachNode.cons.2 ⟨hparent, hchecks⟩⟩
    exact .bind (.lift fun _ => hP.chain hall) fun _ hanswer => hparameter.bind fun _ hn =>
      .bind (.lift fun _ => hP.ret (by simpa using hanswer)) fun _ hr =>
        .lift fun _ => hP.function (by simpa using hn) (by simpa using hr)

theorem makes_inheritedConstructor : Makes inheritedConstructor P := by
  refine (makes_ownPath hP hown (by decide)).bind fun _ hp => (makes_own hP hown (by decide)).bind fun _ hargs =>
    .bind (fun _ => hP.methodCall hp (by simp [null_hereditary hP hown, hargs])) fun _ hcall => ?_
  exact .bind (fun _ => hP.statement hcall) fun _ hs => (makes_bucket hP hown .pub).bind fun _ hn =>
    .bind (fun _ => hP.ret (by simpa using hn)) fun _ hr _ => hP.function nofun (by simp [hs, hr])

theorem emitConstructor_hereditary {c : Class} (hc : (Part.cls c).NamesAdmitted admits) :
    Emits admits (emitConstructor ctx c) P := by
  unfold emitConstructor
  split
  · next m hlast =>
    obtain ⟨d, hd, hm⟩ := List.mem_filterMap.1 (List.mem_filter.1 (List.mem_of_getLast? hlast)).1
    cases d with
    | method d =>
      cases hm
      have hparts := hc.below _ (Part.mem_members.2 ⟨_, hd, .inr (.inr ⟨m, rfl, rfl⟩)⟩)
      obtain ⟨hparams, hbody⟩ := List.forall_mem_append.1 hparts.below
      exact emitFunction_hereditary hP hown ctx hparams hbody
    | _ => cases hm
  · exact .built (makes_inheritedConstructor hP hown)

theorem makes_instanceEnd : Makes instanceEnd P := by
  refine (makes_bucket hP hown .pub).bind fun _ h₁ => (makes_bucket hP hown .prot).bind fun _ h₂ =>
    (makes_own hP hown (by decide)).bind fun _ h₃ =>
      .bind (fun _ => hP.object (by simp [h₁, h₂, h₃])) fun _ hparts => ?_
  exact (makes_own hP hown (by decide)).bind fun _ hc => .bind (fun _ => hP.call hc (by simpa using hparts))
    fun _ hcall _ => hP.ret (by simpa using hcall)

theorem emitInstance_hereditary {c : Class} (hc : (Part.cls c).NamesAdmitted admits)
    (hhook : Makes (instanceHook ctx c.qualifiedName) P) : Emits admits (emitInstance ctx c) (EachNode P) := by
  refine (Keeps.built (makes_instanceStart hP hown)).bind fun start hstart => ?_
  refine (Keeps.forall_mapM fun m hm => emitInstanceMember_hereditary hP hown ctx hc hm).bind fun members hmembers => ?_
  refine (Keeps.result hhook).bind fun _ hhook =>
    (Keeps.built (makes_memberStatement hP hown _ _ hhook)).bind fun hook hhook => ?_
  refine (emitConstructor_hereditary hP hown ctx hc).bind fun _ hconstruct =>
    (Keeps.built (makes_ownDeclare hP hown (by decide) hconstruct)).bind fun construct hconstruct => ?_
  refine (Keeps.built (makes_instanceEnd hP hown)).bind fun ending hending => .pure ?_
  simp [hstart, EachNode.flatten hmembers, hhook, hconstruct, hending]

theorem makes_constantsTable (name : String) : Makes (constantsTable ctx name) P := by
  refine .bind (.lift (makes_own hP hown (by decide))) fun _ ho =>
    .bind (.lift fun _ => hP.member ho) fun parent hparent => ?_
  refine (Makes.any _).bind fun _ _ =>
    .bind (.mapM fun i _ => .lift (makes_constantsPath hP hown i)) fun tables htables => ?_
  have hall : EachNode P (parent :: tables) := EachNode.cons.2 ⟨hparent, htables⟩
  exact .bind (.lift (makes_own hP hown (by decide))) fun _ hc =>
    .bind (.lift fun _ => hP.call hc hall) fun _ hcall => .lift (makes_ownDeclare hP hown (by decide) hcall)

theorem emitConstant_hereditary {c : Constant} (h : (Part.expr c.value).NamesAdmitted admits) :
    Emits admits (emitConstant ctx c) P :=
  (Keeps.located (emitExpr_hereditary hP hown ctx c.value h) c.pos).bind fun _ hv =>
    (Keeps.built (makes_own hP hown (by decide))).bind fun _ ho =>
      (Keeps.built fun _ => hP.member ho).bind fun _ ht =>
        (Keeps.built fun _ => hP.assign ht hv).bind fun _ ha => .built fun _ => hP.statement ha

theorem emitClassConstants_hereditary (ms : List Member) (h : ∀ p ∈ Part.members ms, p.NamesAdmitted admits) :
    Emits admits (emitClassConstants ctx ms) (EachNode P) := by
  induction ms with
  | nil => exact .pure .nil
  | cons m ms ih =>
    rw [Part.members_cons, List.forall_mem_append] at h
    have hrest := ih h.2
    cases m with
    | const c =>
      exact (emitConstant_hereditary hP hown ctx (h.1 _ (.head _))).bind fun _ hc => hrest.bind fun _ hcs =>
        .pure (EachNode.cons.2 ⟨hc, hcs⟩)
    | _ => exact hrest

theorem makes_extendFunction {stmts : List Node} (h : EachNode P stmts) : Makes (extendFunction stmts) P := by
  refine (makes_own hP hown (by decide)).bind fun _ hn => .bind (fun _ => hP.function (by simpa using hn) h)
    fun _ hlevel => (makes_own hP hown (by decide)).bind fun _ hparam => ?_
  exact (makes_own hP hown (by decide)).bind fun _ hp => .bind (fun _ => hP.methodCall hp (by simpa using hlevel))
    fun _ hcall => .bind (fun _ => hP.ret (by simpa using hcall)) fun _ hr _ =>
      hP.function (by simpa using hparam) (by simpa using hr)

theorem makes_factoryFunction : Makes factoryFunction P := by
  refine (makes_own hP hown (by decide)).bind fun _ hn => (makes_ownPath hP hown (by decide)).bind fun _ hp =>
    .bind (fun _ => hP.ret (by simpa using hp)) fun _ hr =>
      .bind (fun _ => hP.function (by simpa using hn) (by simpa using hr)) fun _ hinstantiate => ?_
  refine (makes_own hP hown (by decide)).bind fun _ hc => .bind (fun _ => hP.call hc (by simpa using hinstantiate))
    fun _ hextended => (makes_own hP hown (by decide)).bind fun _ hargs => ?_
  exact .bind (fun _ => hP.methodCall hextended (by simp [null_hereditary hP hown, hargs])) fun _ hcall =>
    .bind (fun _ => hP.ret (by simpa using hcall)) fun _ hr _ => hP.function nofun (by simpa using hr)

theorem makes_moduleEnd : Makes moduleEnd P :=
  (makes_own hP hown (by decide)).bind fun _ h₁ => (makes_factoryFunction hP hown).bind fun _ h₂ =>
    (makes_own hP hown (by decide)).bind fun _ h₃ =>
      .bind (fun _ => hP.object (by simp [h₁, h₂, h₃])) fun _ ho _ => hP.ret (by simpa using ho)

theorem emitModule_hereditary {c : Class} (hc : (Part.cls c).NamesAdmitted admits)
    (hhook : Makes (instanceHook ctx c.qualifiedName) P) : Emits admits (emitModule ctx c) P := by
  refine (emitInstance_hereditary hP hown ctx hc hhook).bind fun stmts hstmts => ?_
  refine (Keeps.result (makes_constantsTable hP hown ctx _)).bind fun table htable => ?_
  refine (emitClassConstants_hereditary hP hown ctx c.members hc.below).bind fun constants hconstants => ?_
  refine (Keeps.built (makes_extendFunction hP hown hstmts)).bind fun _ he =>
    (Keeps.built (makes_ownDeclare hP hown (by decide) he)).bind fun extend hextend => ?_
  refine (Keeps.built (makes_own hP hown (by decide))).bind fun _ hn =>
    (Keeps.built (makes_moduleEnd hP hown)).bind fun ending hending => ?_
  have hall : EachNode P (table :: constants ++ [extend, ending]) := by
    simp [htable, hconstants, hextend, hending]
  exact .built fun _ => hP.function (by simpa using hn) hall

/-! ## Interfaces -/

theorem makes_interfaceTable (registry : Registry) (i : Interface) : Makes (interfaceTable registry i) P := by
  refine .bind (.mapM fun p _ => .ite (.lift (makes_constantsPath hP hown _)) (.error _)) fun tables htables => ?_
  exact .bind (.lift (makes_own hP hown (by decide))) fun _ hc => .lift fun _ => hP.call hc htables

theorem emitInterfaceMember_hereditary {i : Interface} (hi : (Part.iface i).NamesAdmitted admits) {m : Member}
    (hm : m ∈ i.members) : Emits admits (emitInterfaceMember ctx i m) (EachNode P) := by
  cases m with
  | const c =>
    have hc := hi.below _ (Part.mem_interfaceMembers.2 ⟨_, hm, .inl ⟨c, rfl, rfl⟩⟩)
    refine (Keeps.located (emitExpr_hereditary hP hown ctx c.value hc) c.pos).bind fun _ hv => ?_
    refine (Keeps.built (makes_constantsPath hP hown _)).bind fun _ ho =>
      (Keeps.built (Q := fun key => ident c.name = .ok key) fun _ hkey => hkey).bind fun _ hkey =>
        (Keeps.built fun _ => hP.named ho hkey).bind fun _ ht => ?_
    exact (Keeps.built fun _ => hP.assign ht hv).bind fun _ ha =>
      (Keeps.built fun _ => hP.statement ha).bind fun _ hs => .pure (by simpa using hs)
  | method _ => exact .pure .nil
  | property p => exact .failAt _ _
  | traitUse _ => exact .failAt _ _

end Hereditary

end ClassScript.Emit

namespace ClassScript

open Emit Script

section Hereditary

variable {admits : String → Prop} {P : Node → Prop} (hP : Hereditary admits P)
  (hown : ∀ s ∈ generatedNames, admits s)

include hP hown

theorem Class.makes_parentPath (registry : Registry) (c : Class) : Makes (c.parentPath registry) P := by
  unfold parentPath
  split
  · exact .lift (makes_own hP hown (by decide))
  · exact .ite (.lift (makes_classPath hP hown _)) (.error _)

/-- What a class is emitted as has the property if the function that tells the class of an instance
has it. -/
theorem Class.emit_hereditary (registry : Registry) {c : Class} (hc : (Part.cls c).NamesAdmitted admits)
    (hhook : Makes (instanceHook ⟨registry, some c.qualifiedName⟩ c.qualifiedName) P) :
    Makes (c.emit registry) P := by
  have hmodule := (emitModule_hereditary hP hown ⟨registry, some c.qualifiedName⟩ hc hhook).located c.pos
  refine .bind (hmodule.makes nofun) fun _ hmodule => ?_
  refine .bind (c.makes_parentPath hP hown registry) fun _ hparent => ?_
  exact .bind (.lift (makes_classPath hP hown _)) fun _ ht =>
    .bind (.lift fun _ => hP.call hmodule (by simpa using hparent)) fun _ hcall =>
      .bind (.lift fun _ => hP.assign ht hcall) fun _ ha => .lift fun _ => hP.statement ha

theorem Interface.emit_hereditary (registry : Registry) {i : Interface}
    (hi : (Part.iface i).NamesAdmitted admits) : Makes (i.emit registry) (EachNode P) := by
  refine .bind (makes_interfaceTable hP hown registry i) fun table htable => ?_
  refine .bind (.lift (makes_classPath hP hown _)) fun _ ht =>
    .bind (.lift fun _ => hP.object (by simpa using htable)) fun _ ho =>
      .bind (.lift fun _ => hP.assign ht ho) fun _ ha => .bind (.lift fun _ => hP.statement ha)
        fun start hstart => ?_
  have hmembers := Keeps.forall_mapM fun m hm => emitInterfaceMember_hereditary hP hown ⟨registry, none⟩ hi hm
  refine .bind (hmembers.makes nofun) fun members hmembers => .pure ?_
  exact EachNode.cons.2 ⟨hstart, .flatten hmembers⟩

end Hereditary

theorem Class.emit_constructed (registry : Registry) (c : Class) : Makes (c.emit registry) Constructed :=
  emit_hereditary Constructed.hereditary (fun _ _ => trivial) registry (fun _ _ _ _ => trivial)
    (makes_instanceHook Constructed.hereditary _ trivial trivial _)

theorem Interface.emit_constructed (registry : Registry) (i : Interface) :
    Makes (i.emit registry) (EachNode Constructed) :=
  emit_hereditary Constructed.hereditary (fun _ _ => trivial) registry fun _ _ _ _ => trivial

/-- A node is printed if and only if all bodies in it are blocks and every `else` leads to a block or
another branch. Whatever is made by constructors is well formed, so it is printed, and so are all
classes and interfaces that are emitted. -/
theorem emitted_prints :
    (∀ unit (n : Node), (∃ text, n.printWith unit = .ok text) ↔ ∀ m ∈ n.all, m.HasBlocks) ∧
    (∀ n, Constructed n → ∀ m ∈ n.all, m.HasBlocks ∧ m.Formed) ∧
    (∀ registry (c : Class) n, c.emit registry = .ok n → ∃ text, n.print = .ok text) ∧
    (∀ registry (i : Interface) ns, i.emit registry = .ok ns → ∀ n ∈ ns, ∃ text, n.print = .ok text) := by
  have hprints {n : Node} (h : Constructed n) : ∃ text, n.print = .ok text :=
    (Node.prints_iff n).2 fun m hm => (h.formed m hm).hasBlocks
  refine ⟨fun _ n => n.prints_iff, fun n h m hm => ⟨(h.formed m hm).hasBlocks, h.formed m hm⟩, ?_, ?_⟩
  · exact fun registry c n hn => hprints (c.emit_constructed registry n hn)
  · exact fun registry i ns hns n hn => hprints (i.emit_constructed registry ns hns n hn)

/-- A class whose method branches, loops and throws, and the interface that it lists. -/
def meterText : String :=
  "<?php interface Measured \x7b const UNIT = 'm'; \x7d class Meter implements Measured \x7b private $last = 0;" ++
  " public function read($x) \x7b if ($x > $this->last) \x7b $this->last = $x; \x7d else \x7b throw $x; \x7d" ++
  " while ($x) \x7b $x = 0; \x7d return $this->last . self::UNIT; \x7d \x7d"

theorem meterText_prints : ∃ f k registry, SourceFile.parse "meter" meterText = .ok f ∧
    f.stages .full "Api" = .ok (k, registry) ∧
    (∃ c ∈ k.classes, (∃ m ∈ c.methods, (m.body.getD []).length = 3) ∧ ∃ n, c.emit registry = .ok n ∧
      Constructed n ∧ (∀ m ∈ n.all, m.HasBlocks ∧ m.Formed) ∧ ∃ text, n.print = .ok text) ∧
    ∃ i ∈ k.interfaces, i.members ≠ [] ∧ ∃ ns, i.emit registry = .ok ns ∧ ∀ n ∈ ns, ∃ text, n.print = .ok text := by
  obtain ⟨f, hparse, hstages⟩ := SourceFile.exists_parse "meter" meterText
    (toList_append_eq (toList_append_eq String.toList_ofList String.toList_ofList) String.toList_ofList)
    (p := fun f => (f.stages .full "Api").toOption.any fun s =>
      (∃ c ∈ s.1.classes, (∃ m ∈ c.methods, (m.body.getD []).length = 3) ∧
        (c.emit s.2).toOption.any (fun _ => true) = true) ∧
      ∃ i ∈ s.1.interfaces, i.members ≠ [] ∧ (i.emit s.2).toOption.any (fun _ => true) = true) (by decide +kernel)
  obtain ⟨⟨k, registry⟩, hok, hemitted⟩ := exists_ok_of_any hstages
  obtain ⟨⟨c, hc, hmethod, hcok⟩, i, hi, hmembers, hiok⟩ := of_decide_eq_true hemitted
  obtain ⟨n, hn, -⟩ := exists_ok_of_any hcok
  obtain ⟨ns, hns, -⟩ := exists_ok_of_any hiok
  obtain ⟨-, hformed, hclass, hinterface⟩ := emitted_prints
  have hconstructed := c.emit_constructed registry n hn
  refine ⟨f, k, registry, hparse, hok, ⟨c, hc, hmethod, n, hn, hconstructed, ?_, ?_⟩, i, hi, hmembers, ns, hns, ?_⟩
  · exact hformed n hconstructed
  · exact hclass registry c n hn
  · exact hinterface registry i ns hns

end ClassScript
