import ClassScript.Proofs.Grammar.Statement
import ClassScript.Proofs.Simplify.Names
import ClassScript.Proofs.Tree.Signature
import ClassScript.Session
/-!
# Declarations of a prepared file

Behind the resolution of names no pass changes what a file declares, apart from parameters that lose their
types (`Setting.prepare_declares`). The script APIs of a class are found on the way: they are the types of
its constructor's parameters if the class itself lists the script interface, and else there are none.
-/

namespace ClassScript

/-! ## Simplification -/

namespace Simplify

theorem imports_signs : Signs (.plain Unit) imports Class.Same where
  idle := Logic.Idle.plain
  stmt {_ s _} h := by
    cases s with
    | imports => exact ⟨[], rfl, .nil⟩
    | _ => exact Signed.stmt (h ())
  param := Signed.paramKept
  method := Signed.methodKept
  cls := Signed.clsKept
  iface := Signed.ifaceKept

theorem owners_signs : Signs (.reading Owner (.unlessFailed Fault Unit)) owners Class.Same where
  idle := Logic.Idle.reading Logic.Idle.unlessFailed
  stmt := Signed.stmtKept
  param := Signed.paramKept
  method := Signed.methodKept
  cls h c' hc' := Signed.cls (h _ c' hc')
  iface h i' hi' := Signed.iface (h _ i' hi')

theorem compound_signs : Signs (.plain Unit) compound Class.Same where
  idle := Logic.Idle.plain
  stmt := Signed.stmtKept
  param := Signed.paramKept
  method := Signed.methodKept
  cls := Signed.clsKept
  iface := Signed.ifaceKept

theorem untyped_keeps (p : Param) : p.Keeps (untyped p) := ⟨rfl, .inr rfl⟩

theorem map_untyped_keeps (ps : List Param) : List.Forall₂ Param.Keeps ps (ps.map untyped) :=
  List.forall₂_map_right_iff.2 (List.forall₂_same.2 fun p _ => untyped_keeps p)

theorem typeGuards_signs (si : String) : Signs (.reading Place (.plain Unit)) (typeGuards si) Class.Same where
  idle := Logic.Idle.reading Logic.Idle.plain
  stmt := Signed.stmtKept
  param := Signed.paramKept
  method {k _ _} h := by
    have hm := Signed.method (h k)
    obtain ⟨_ | _, _⟩ := k
    · exact hm.trans ⟨rfl, map_untyped_keeps _⟩
    · exact hm
  cls h := Signed.cls (h _)
  iface := Signed.ifaceKept

theorem typeless_signs : Signs (.plain Unit) typeless Class.Same where
  idle := Logic.Idle.plain
  stmt := Signed.stmtKept
  param h := (Signed.param (h ())).trans (untyped_keeps _)
  method := Signed.methodKept
  cls := Signed.clsKept
  iface := Signed.ifaceKept

/-- A loop becomes an expression. -/
theorem iteration_declarations {p : Position} {subject value : Expr} {key : Option Expr} {body : List Stmt} {s : Stmt}
    (h : iteration p subject key value body = .ok s) : declarationsOf [s] = [] := by
  obtain ⟨_, -, h⟩ := bind_eq_ok.1 h
  obtain ⟨_, -, h⟩ := bind_eq_ok.1 h
  obtain ⟨_, -, h⟩ := bind_eq_ok.1 h
  cases h
  rfl

theorem arrays_signs : Signs (.unlessFailed Fault Unit) arrays Class.Same where
  idle := Logic.Idle.unlessFailed
  stmt h := Logic.bind _ (h _) fun s₁ _ hs₁ => by
    cases s₁ with
    | foreach p subject key value byRef body =>
      cases byRef with
      | true => exact nofun
      | false =>
        intro ss hss
        obtain ⟨s', hs', hss⟩ := bind_eq_ok.1 hss
        cases hss
        obtain ⟨_, hts, hdeclares⟩ := Signed.stmt hs₁
        obtain rfl := List.map_injective_iff.2 (fun _ _ => Part.stmt.inj) hts
        exact ⟨[s'], rfl, iteration_declarations hs' ▸ hdeclares⟩
    | _ => exact Logic.pure _ (Signed.stmt hs₁)
  param := Signed.paramKept
  method := Signed.methodKept
  cls := Signed.clsKept
  iface := Signed.ifaceKept

theorem initialisers_signs : Signs (.plain Unit) initialisers Class.Same where
  idle := Logic.Idle.plain
  stmt := Signed.stmtKept
  param := Signed.paramKept
  method {_ _ act} h := by
    have hm : Method.Keeps _ act := Signed.method (h ())
    exact ⟨hm.name, hm.params⟩
  cls := Signed.clsKept
  iface := Signed.ifaceKept

theorem types_declares (pipeline : Pipeline) (si : String) (ss : List Stmt) :
    List.Forall₂ (Sum.LiftRel Class.Same Interface.Keeps) (declarationsOf ss)
      (declarationsOf (types pipeline si ss)) := by
  cases pipeline with
  | full => exact (typeGuards_signs si).declarations {} ss
  | reduced => exact typeless_signs.declarations () ss

/-- Behind the resolution of names, simplification keeps what is declared. -/
theorem statements_declares {pipeline : Pipeline} {si : String} {ss ss' : List Stmt}
    (h : statements pipeline si ss = .ok ss') :
    List.Forall₂ (Sum.LiftRel Class.Same Interface.Keeps) (declarationsOf (resolveNames ss).1)
      (declarationsOf ss') := by
  obtain ⟨plain, hplain, h⟩ := bind_eq_ok.1 h
  obtain ⟨listed, hlisted, hss⟩ := bind_eq_ok.1 h
  obtain ⟨owned, howned, hplain⟩ := bind_eq_ok.1 hplain
  cases hplain
  cases hss
  have himports := imports_signs.declarations () (resolveNames ss).1
  have howners := owners_signs.declarations {} _ owned howned
  have hcompound := compound_signs.declarations () owned
  have htypes := types_declares pipeline si (stmtsThrough (m := Id) compound owned)
  have harrays := arrays_signs.declarations () _ listed hlisted
  have hinitialisers := initialisers_signs.declarations () listed
  have htrans (c c' c'' : Class) (h : c.Same c') (h' : c'.Same c'') : c.Same c'' := h.trans h'
  refine declares_trans htrans himports (declares_trans htrans howners (declares_trans htrans hcompound ?_))
  exact declares_trans htrans htypes (declares_trans htrans harrays hinitialisers)

end Simplify

/-! ## Annotation -/

namespace Annotate

theorem stampMember_keeps (m : Member) : m.Keeps (stampMember m) := by
  cases m with
  | property => exact .property rfl
  | const => exact .const rfl
  | method m => exact .method ⟨rfl, (Method.Keeps.refl m).params⟩
  | traitUse => exact .traitUse

theorem map_stampMember_keeps (ms : List Member) : List.Forall₂ Member.Keeps ms (ms.map stampMember) :=
  List.forall₂_map_right_iff.2 (List.forall₂_same.2 fun m _ => stampMember_keeps m)

theorem visibility_signs : Signs (.plain Unit) visibility Class.Same where
  idle := Logic.Idle.plain
  stmt := Signed.stmtKept
  param := Signed.paramKept
  method := Signed.methodKept
  cls _ := ⟨⟨rfl, rfl, rfl, map_stampMember_keeps _⟩, rfl⟩
  iface _ := ⟨rfl, rfl, map_stampMember_keeps _⟩

theorem declarations_signs : Signs (.anyState Known Unit) declarations Class.Same where
  idle := Logic.Idle.anyState
  stmt := Signed.stmtKept
  param := Signed.paramKept
  method {k d act} h s := by
    have hm := h k (some (d.params.map (·.name)))
    exact Signed.method hm
  cls := Signed.clsKept
  iface := Signed.ifaceKept

end Annotate

/-! ## Script APIs -/

/-- The parameters of the constructors that a class declares. -/
def Class.constructorParams (c : Class) : List Param := (c.methods.filter Method.isConstructor).flatMap (·.params)

theorem Class.Keeps.methods {c c' : Class} (h : c.Keeps c') : List.Forall₂ Method.Keeps c.methods c'.methods := by
  have hmethods {ms ms' : List Member} (h : List.Forall₂ Member.Keeps ms ms') :
      List.Forall₂ Method.Keeps (ms.filterMap Member.method?) (ms'.filterMap Member.method?) := by
    induction h with
    | nil => exact .nil
    | cons hm _ ih =>
      cases hm with
      | method hm => exact .cons hm ih
      | property | const | traitUse => exact ih
  exact hmethods h.members

theorem Method.Keeps.isConstructor {m m' : Method} (h : m.Keeps m') : m'.isConstructor = m.isConstructor := by
  rw [Method.isConstructor, h.name, Method.isConstructor]

theorem Class.Keeps.constructors {c c' : Class} (h : c.Keeps c') :
    List.Forall₂ Method.Keeps (c.methods.filter Method.isConstructor) (c'.methods.filter Method.isConstructor) :=
  List.rel_filter (fun _ _ hm => by simp only [hm.isConstructor]) h.methods

theorem Class.Keeps.constructorParams {c c' : Class} (h : c.Keeps c') :
    List.Forall₂ Param.Keeps c.constructorParams c'.constructorParams :=
  List.rel_flatMap h.constructors fun _ _ hm => hm.params

/-- The type of a parameter names a script API. -/
def Param.Asks (p : Param) (api : String) : Prop := p.type.map (·.name.joined) = some api

theorem Param.Keeps.asks {p p' : Param} {api : String} (h : p.Keeps p') (h' : p'.Asks api) : p.Asks api := by
  rcases h.type with htype | htype
  · rwa [Param.Asks, ← htype]
  · rw [Param.Asks, htype] at h'
    cases h'

/-- A class keeps its signature. If it lists the script interface, then its script APIs are what its
constructors ask for. -/
structure Class.Prepares (si : String) (c c' : Class) : Prop where
  keeps : c.Keeps c'
  listed : c.lists si = true → ∃ apis, c'.scriptApis = some apis ∧ List.Forall₂ Param.Asks c.constructorParams apis
  unlisted : c.lists si = false → c'.scriptApis = c.scriptApis

theorem Class.Keeps.lists {c c' : Class} (h : c.Keeps c') (si : String) : c'.lists si = c.lists si := by
  rw [Class.lists, h.interfaces, Class.lists]

theorem Class.Same.prepares {si : String} {c c' c'' : Class} (h : c.Same c') (h' : c'.Prepares si c'') :
    c.Prepares si c'' where
  keeps := h.1.trans h'.keeps
  listed hlists := by
    obtain ⟨apis, hapis, hasks⟩ := h'.listed (h.1.lists si ▸ hlists)
    exact ⟨apis, hapis, forall₂_trans (fun _ _ _ hp hp' => hp.asks hp') h.1.constructorParams hasks⟩
  unlisted hlists := (h'.unlisted (h.1.lists si ▸ hlists)).trans h.2

theorem Class.Prepares.same {si : String} {c c' c'' : Class} (h : c.Prepares si c') (h' : c'.Same c'') :
    c.Prepares si c'' where
  keeps := h.keeps.trans h'.1
  listed hlists := by
    obtain ⟨apis, hapis, hasks⟩ := h.listed hlists
    exact ⟨apis, h'.2.trans hapis, hasks⟩
  unlisted hlists := h'.2.trans (h.unlisted hlists)

namespace Annotate

theorem apiOf_asks {c : Class} {p : Param} {api : String} (h : apiOf c p = .ok api) : p.Asks api := by
  unfold apiOf at h
  split at h
  · next hfound =>
    cases h
    exact (Option.filter_eq_some_iff.1 hfound).1
  · cases h

theorem eraseTypes_keeps (m : Member) : m.Keeps (eraseTypes m) := by
  cases m with
  | method m => exact .method ⟨rfl, Simplify.map_untyped_keeps m.params⟩
  | property => exact .property rfl
  | const => exact .const rfl
  | traitUse => exact .traitUse

theorem scriptApis_signs (si : String) : Signs (.unlessFailed Diagnostic Unit) (scriptApis si) (Class.Prepares si) where
  idle := Logic.Idle.unlessFailed
  stmt := Signed.stmtKept
  param := Signed.paramKept
  method := Signed.methodKept
  cls {_ c _} _ c' hc' := by
    simp only [scriptApis] at hc'
    split at hc'
    · next hlists =>
      obtain ⟨apis, hapis, hc'⟩ := bind_eq_ok.1 hc'
      cases hc'
      have hmembers : List.Forall₂ Member.Keeps c.members (c.members.map eraseTypes) :=
        List.forall₂_map_right_iff.2 (List.forall₂_same.2 fun m _ => eraseTypes_keeps m)
      refine ⟨⟨rfl, rfl, rfl, hmembers⟩, fun _ => ⟨apis, rfl, ?_⟩, fun hno => absurd hlists (by simp [hno])⟩
      exact (forall₂_of_mapM hapis).imp fun _ _ => apiOf_asks
    · next hlists =>
      cases hc'
      refine ⟨.refl c, fun hyes => absurd hyes hlists, fun _ => rfl⟩
  iface := Signed.ifaceKept

end Annotate

/-! ## Files -/

/-- The file with its names resolved. -/
def SourceFile.named (f : SourceFile) : SourceFile := { f with stmts := (Simplify.resolveNames f.stmts).1 }

theorem SourceFile.simplify_declares {pipeline : Pipeline} {si : String} {f g : SourceFile}
    (h : f.simplify pipeline si = .ok g) : f.named.Declares Class.Same g := by
  unfold simplify at h
  split at h
  · next hss =>
    cases h
    exact Simplify.statements_declares hss
  · cases h

theorem SourceFile.annotate_declares {si : String} {f g : SourceFile} (h : f.annotate si = .ok g) :
    f.Declares (Class.Prepares si) g := by
  obtain ⟨ss, hss, h⟩ := bind_eq_ok.1 h
  cases h
  have hstamp := Annotate.visibility_signs.declarations () f.stmts
  have hdeclared := Annotate.declarations_signs.declarations () f.stamp.stmts none
  have hapis := (Annotate.scriptApis_signs si).declarations () _ ss hss
  refine declares_trans (fun _ _ _ h h' => h.prepares h') hstamp ?_
  exact declares_trans (fun _ _ _ h h' => h.prepares h') hdeclared hapis

/-- A class as it is read: nothing is known of script APIs. -/
def Part.Unasked : Part → Prop
  | .cls c => c.scriptApis = none
  | _ => True

def unaskedShape : Shape Unit where
  enter _ _ := ()
  holds _ := Part.Unasked
  enter_expr _ _ := rfl
  enter_stmt _ _ := rfl
  enter_param _ _ := rfl
  enter_bare _ _ := rfl
  holds_bare _ p := by cases p <;> rfl

theorem nameless_unaskedShape : Nameless unaskedShape where
  expr _ _ := trivial
  stmt _ _ := trivial
  clause _ _ := trivial
  param _ _ := trivial
  cls _ _ _ h := h
  iface _ _ _ := trivial

theorem SourceFile.parse_unasked {path text : String} {f : SourceFile} (h : SourceFile.parse path text = .ok f) :
    ∀ c ∈ f.named.classes, c.scriptApis = none := by
  have hstmts : ∀ s ∈ f.stmts, Throughout unaskedShape () (.stmt s) := fun s hs =>
    throughout_of_all fun q hq _ => by
      have hwritten := parse_written h s hs q hq
      cases q with
      | cls => exact hwritten
      | _ => trivial
  have hnamed := Carried.ofStmts ((Simplify.names_sound nameless_unaskedShape).stmts f.stmts () {}) trivial hstmts
  intro c hc
  obtain ⟨d, hd, hleft⟩ := List.mem_filterMap.1 hc
  obtain rfl := Sum.getLeft?_eq_some_iff.1 hleft
  exact (throughout_declarationsOf _ hnamed _ hd).head.1

/-- A prepared file declares what its text does. -/
theorem Setting.prepare_declares {env : Setting} {path : Path} {pipeline : Pipeline} {text : String} {g : SourceFile}
    (h : env.prepare path pipeline text = .ok g) : ∃ f, SourceFile.parse path.text text = .ok f ∧
      f.named.Declares (Class.Prepares env.options.scriptInterface) g := by
  obtain ⟨f, hf, h⟩ := bind_eq_ok.1 h
  obtain ⟨simple, hsimple, h⟩ := bind_eq_ok.1 h
  split at h
  · cases h
  · have hannotated := SourceFile.annotate_declares (mapError_eq_ok.1 h)
    have hsimplified := SourceFile.simplify_declares hsimple
    exact ⟨f, hf, declares_trans (fun _ _ _ h h' => h.prepares h') hsimplified hannotated⟩

end ClassScript
