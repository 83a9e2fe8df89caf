import ClassScript.Emit.Interface
import ClassScript.Proofs.Annotate.Marks
import ClassScript.Proofs.Registry.Records
/-!
# Declarations are emitted without internal failures

A class is made of its members, of what its constructor does and of what the registry knows of its ancestors.
Whatever fails with a class whose members are ready fails for a reason in the source (`Class.emit_external`), and
so for an interface whose constants are (`Interface.emit_external`).
-/

namespace ClassScript

/-- The expression that a member of a class starts with. -/
def Member.initialiser? : Member → Option Expr
  | property d => d.default
  | const d => some d.value
  | _ => none

/-- The defaults of the properties and the values of the constants of a class. -/
def Class.initialisers (c : Class) : List Expr := c.members.filterMap Member.initialiser?

/-- The values of the constants of an interface. -/
def Interface.initialisers (i : Interface) : List Expr := (constantsOf i.members).map (·.value)

/-- All that is emitted with a class is ready. -/
structure Class.Ready (c : Class) : Prop where
  stamped : ∀ m ∈ c.members, m.Stamped
  methods : ∀ m ∈ c.methods, ∀ q ∈ (Part.method m).children, Emit.Reached true q
  initialisers : ∀ e ∈ c.initialisers, Emit.Reached false (.expr e)

namespace Emit

open Script

variable (ctx : Context)

/-! ## What is around the members -/

theorem clean_instanceStart : Clean instanceStart := by
  refine (clean_path _).bind fun publicPart => (clean_declare publicBucket publicPart).bind fun _ => ?_
  refine (clean_path _).bind fun protectedPart => (clean_declare (bucket .prot) protectedPart).bind fun _ => ?_
  refine (clean_object []).bind fun privatePart => (clean_declare (bucket .priv) privatePart).bind fun _ => ?_
  -- the copy of what is inherited
  refine (clean_ident copyName).bind fun copy => ?_
  refine (clean_ident (bucket .prot)).bind fun shared => (clean_ident publicBucket).bind fun object => ?_
  refine (clean_call copy [shared, object]).bind fun inherited => ?_
  refine (clean_declare parentBinding inherited).bind fun _ => ?_
  -- and its constructor
  refine (clean_ident parentBinding).bind fun parent => (clean_member constructorName parent).bind fun slot => ?_
  refine (clean_path _).bind fun construct => (clean_assign slot construct).bind fun assigned => ?_
  exact (clean_statement assigned).bind fun _ => .pure _

theorem external_declaredInterfaces (r : Registry) (name : String) :
    External ((r.declaredInterfaces name).mapError Registry.Fault.diagnostic) := by
  rw [Registry.declaredInterfaces, Registry.requireClass]
  cases r.class? name with
  | none => exact .error (by nofun)
  | some c => exact .pure _

theorem external_instanceHook (name : String) : External (instanceHook ctx name) := by
  have hcheck (name : String) : External (do binary "===" (← ident "name") (.string name) : Result Node) :=
    (External.built (clean_ident "name")).bind fun asked => .built (clean_binary asked (.string name) _)
  refine (External.built (clean_ident "name")).bind fun asked => ?_
  refine (External.built (clean_binary asked (.string name) _)).bind fun own => ?_
  refine (External.built (clean_ident parentBinding)).bind fun object => ?_
  refine (External.built (clean_ident "name")).bind fun asked => ?_
  refine (External.built (clean_methodCall instanceCheckName object [asked])).bind fun parent => ?_
  refine (external_declaredInterfaces _ name).bind fun interfaces => ?_
  refine (External.mapM hcheck).bind fun checks => ?_
  refine (External.built (clean_chain (own :: parent :: checks) _)).bind fun answer => ?_
  refine (External.built (clean_ident "name")).bind fun param => ?_
  refine (External.built (clean_ret (some answer))).bind fun last => ?_
  exact .built (clean_function [last] [param])

theorem clean_inheritedConstructor : Clean inheritedConstructor := by
  refine (clean_path _).bind fun construct => (clean_ident "arguments").bind fun given => ?_
  refine (clean_methodCall "apply" construct [null, given]).bind fun call => ?_
  refine (clean_statement call).bind fun stmt => ?_
  refine (clean_ident publicBucket).bind fun object => (clean_ret (some object)).bind fun last => ?_
  exact clean_function [stmt, last] []

theorem clean_instanceEnd : Clean instanceEnd := by
  refine (clean_ident publicBucket).bind fun publicPart => ?_
  refine (clean_ident (bucket .prot)).bind fun protectedPart => ?_
  refine (clean_ident "construct").bind fun construct => ?_
  refine (clean_object _).bind fun parts => ?_
  refine (clean_ident "createClass").bind fun create => ?_
  exact (clean_call create [parts]).bind fun created => clean_ret (some created)

theorem external_constantsTable (name : String) : External (constantsTable ctx name) := by
  refine (External.built (clean_ident "parent")).bind fun parent => ?_
  refine (External.built (clean_member constantsKey parent)).bind fun inherited => ?_
  refine (external_declaredInterfaces _ name).bind fun interfaces => ?_
  refine (External.mapM fun i => .built (clean_constantsPath i)).bind fun tables => ?_
  refine (External.built (clean_ident copyName)).bind fun copy => ?_
  refine (External.built (clean_call copy (inherited :: tables))).bind fun table => ?_
  exact .built (clean_declare constantsName (some table))

theorem clean_extendFunction (stmts : List Node) : Clean (extendFunction stmts) := by
  refine (clean_ident "inherited").bind fun param => (clean_function stmts [param]).bind fun level => ?_
  refine (clean_ident "createClass").bind fun create => (clean_ident "parent").bind fun parent => ?_
  refine (clean_methodCall "__extend" parent [level]).bind fun extended => ?_
  exact (clean_ret (some extended)).bind fun last => clean_function [last] [create]

theorem clean_factoryFunction : Clean factoryFunction := by
  refine (clean_ident "instance").bind fun param => (clean_path _).bind fun construct => ?_
  refine (clean_ret (some construct)).bind fun last => (clean_function [last] [param]).bind fun instantiate => ?_
  refine (clean_ident "extend").bind fun extend => (clean_call extend [instantiate]).bind fun extended => ?_
  refine (clean_ident "arguments").bind fun given => ?_
  refine (clean_methodCall "apply" extended [null, given]).bind fun made => ?_
  exact (clean_ret (some made)).bind fun last => clean_function [last] []

theorem clean_moduleEnd : Clean moduleEnd := by
  refine (clean_ident "extend").bind fun extend => clean_factoryFunction.bind fun factory => ?_
  refine (clean_ident constantsName).bind fun constants => ?_
  exact (clean_object _).bind fun module => clean_ret (some module)

/-! ## Members -/

theorem emitProperty_safe (cls : String) {p : Property} (hresolved : p.resolved.isSome = true)
    (h : ∀ e ∈ p.default, Reached false (.expr e)) : Safe false (emitProperty ctx cls p) := by
  obtain ⟨v, hv⟩ := Option.isSome_iff_exists.1 hresolved
  rw [emitProperty, hv]
  refine (Safe.pure v).bind fun v => ?_
  cases hdefault : p.default with
  | none => exact (Safe.pure null).bind fun value => .built (clean_memberStatement v p.name value)
  | some e =>
    have he := emitExpr_safe ctx e (h e hdefault)
    exact (he.located p.pos).bind fun value => .built (clean_memberStatement v p.name value)

theorem emitInstanceMember_safe {c : Class} (hc : c.Ready) {m : Member} (hm : m ∈ c.members) :
    Safe false (emitInstanceMember ctx c m) := by
  have hstamped := hc.stamped m hm
  cases m with
  | method d =>
    -- constructors are left out here
    have hd := hc.methods d (List.mem_filterMap.2 ⟨_, hm, rfl⟩)
    exact .ite (.pure []) ((emitMethod_safe ctx _ hstamped hd).bind fun stmt => .pure [stmt])
  | property d =>
    have hdefault (e : Expr) (he : e ∈ d.default) : Reached false (.expr e) :=
      hc.initialisers e (List.mem_filterMap.2 ⟨_, hm, he⟩)
    exact (emitProperty_safe ctx _ hstamped hdefault).bind fun stmt => .pure [stmt]
  | const d => exact .pure _
  | traitUse ns => exact .failAt (by nofun) _

theorem emitConstructor_safe {c : Class} (hc : c.Ready) : Safe false (emitConstructor ctx c) := by
  unfold emitConstructor
  cases hlast : lastConstructor? c with
  | none => exact .built clean_inheritedConstructor
  | some m =>
    -- of several constructors only the last is emitted, but all of them are methods and ready
    have hm : m ∈ c.methods := (List.mem_filter.1 (List.mem_of_getLast? hlast)).1
    obtain ⟨hparams, hbody⟩ := List.forall_mem_append.1 (hc.methods m hm)
    exact emitFunction_safe ctx hparams hbody

theorem emitInstance_safe {c : Class} (hc : c.Ready) : Safe false (emitInstance ctx c) := by
  refine (Safe.built clean_instanceStart).bind fun start => ?_
  refine (Safe.mapM fun m hm => emitInstanceMember_safe ctx hc hm).bind fun members => ?_
  refine (Safe.result (external_instanceHook ctx _)).bind fun hook => ?_
  refine (Safe.built (clean_memberStatement .pub instanceCheckName hook)).bind fun _ => ?_
  refine (emitConstructor_safe ctx hc).bind fun construct => ?_
  refine (Safe.built (clean_declare "construct" (some construct))).bind fun _ => ?_
  exact (Safe.built clean_instanceEnd).bind fun _ => .pure _

theorem emitConstant_safe {c : Constant} (h : Reached false (.expr c.value)) : Safe false (emitConstant ctx c) := by
  have hvalue := emitExpr_safe ctx c.value h
  refine (hvalue.located c.pos).bind fun value => ?_
  refine (Safe.built (clean_ident constantsName)).bind fun table => ?_
  refine (Safe.built (clean_member c.name table)).bind fun slot => ?_
  exact (Safe.built (clean_assign slot value)).bind fun assigned => .built (clean_statement assigned)

theorem emitClassConstants_safe {ms : List Member}
    (h : ∀ e ∈ ms.filterMap Member.initialiser?, Reached false (.expr e)) :
    Safe false (emitClassConstants ctx ms) := by
  induction ms with
  | nil => exact .pure _
  | cons m ms ih =>
    have hrest := ih fun e he => h e (by
      obtain ⟨x, hx, he⟩ := List.mem_filterMap.1 he
      exact List.mem_filterMap.2 ⟨x, .tail _ hx, he⟩)
    cases m with
    | const d =>
      have hd := h d.value (List.mem_filterMap.2 ⟨_, .head _, rfl⟩)
      exact (emitConstant_safe ctx hd).bind fun stmt => hrest.bind fun stmts => .pure (stmt :: stmts)
    | _ => exact hrest

theorem emitModule_safe {c : Class} (hc : c.Ready) : Safe false (emitModule ctx c) := by
  refine (emitInstance_safe ctx hc).bind fun stmts => ?_
  refine (Safe.result (external_constantsTable ctx _)).bind fun table => ?_
  refine (emitClassConstants_safe ctx hc.initialisers).bind fun constants => ?_
  refine (Safe.built (clean_extendFunction stmts)).bind fun function => ?_
  refine (Safe.built (clean_declare "extend" (some function))).bind fun extend => ?_
  refine (Safe.built (clean_ident "parent")).bind fun param => ?_
  exact (Safe.built clean_moduleEnd).bind fun last => .built (clean_function _ [param])

/-! ## Interfaces -/

theorem external_interfaceTable (r : Registry) (i : Interface) : External (interfaceTable r i) := by
  refine (External.mapM fun p => ?_).bind fun tables => ?_
  · split
    · exact .built (clean_constantsPath p.joined)
    · exact .error (by nofun)
  · exact (External.built (clean_ident copyName)).bind fun copy => .built (clean_call copy tables)

theorem emitInterfaceMember_safe {i : Interface} {m : Member}
    (h : ∀ c ∈ m.const?, Reached false (.expr c.value)) : Safe false (emitInterfaceMember ctx i m) := by
  cases m with
  | const c =>
    have hvalue := emitExpr_safe ctx c.value (h c rfl)
    refine (hvalue.located c.pos).bind fun value => ?_
    refine (Safe.built (clean_constantsPath i.qualifiedName)).bind fun table => ?_
    refine (Safe.built (clean_ident c.name)).bind fun key => ?_
    refine (Safe.built (clean_propertyOf table [key])).bind fun target => ?_
    refine (Safe.built (clean_assign target value)).bind fun assigned => ?_
    exact (Safe.built (clean_statement assigned)).bind fun stmt => .pure [stmt]
  | method d => exact .pure _
  | property d => exact .failAt (by nofun) _
  | traitUse ns => exact .failAt (by nofun) _

end Emit

open Emit Script

theorem Class.external_parentPath (r : Registry) (c : Class) : External (c.parentPath r) := by
  unfold parentPath
  split
  · exact .built (clean_ident _)
  · split
    · exact .built (clean_classPath _)
    · exact .error (by nofun)

theorem Class.emit_external {c : Class} (hc : c.Ready) (r : Registry) : External (c.emit r) := by
  refine (External.run' (.located (emitModule_safe _ hc) c.pos)).bind fun module => ?_
  refine (c.external_parentPath r).bind fun parent => ?_
  refine (External.built (clean_classPath c.qualifiedName)).bind fun path => ?_
  refine (External.built (clean_call module [parent])).bind fun cls => ?_
  exact (External.built (clean_assign path cls)).bind fun assigned => .built (clean_statement assigned)

theorem Interface.emit_external {i : Interface} (h : ∀ e ∈ i.initialisers, Reached false (.expr e)) (r : Registry) :
    External (i.emit r) := by
  have hmembers : Safe false (i.members.mapM (emitInterfaceMember { registry := r, constantsOwner := none } i)) :=
    .mapM fun m hm => emitInterfaceMember_safe _ fun c hc =>
      h _ (List.mem_map_of_mem (List.mem_filterMap.2 ⟨m, hm, hc⟩))
  refine (external_interfaceTable r i).bind fun table => ?_
  refine (External.built (clean_classPath i.qualifiedName)).bind fun path => ?_
  refine (External.built (clean_object _)).bind fun object => ?_
  refine (External.built (clean_assign path object)).bind fun assigned => ?_
  refine (External.built (clean_statement assigned)).bind fun start => ?_
  exact (External.run' hmembers).bind fun members => .pure (start :: members.flatten)

end ClassScript
