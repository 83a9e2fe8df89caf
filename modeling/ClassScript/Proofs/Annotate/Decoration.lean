import ClassScript.Proofs.Annotate.Marks
import ClassScript.Proofs.Tree.Composition
/-!
# Annotations only decorate

What the annotations of a file change is listed part by part in `Decorates`: members are told their visibility,
assignments whether they declare, and script classes trade the types of their parameters for script APIs. All else
of the tree stays, and so does what was there before. The first two passes decorate without regard to script
classes, so what they leave can be decorated further (`Decorated.trans`).

Marking access to `$this` sets buckets and nothing else (`access_buckets`).
-/

namespace ClassScript

namespace Annotate

/-! ## Decorations -/

/-- Where a part stands: outside of classes, directly in a script class or in a method of one, or elsewhere in
classes. -/
inductive Area where
  | outside
  | script
  | method
  | elsewhere
deriving DecidableEq

def Area.enter (scriptInterface : String) : Area → Part → Area
  | .outside, .cls c => if c.lists scriptInterface then .script else .elsewhere
  | .outside, _ => .outside
  | .script, .method _ => .method
  | _, _ => .elsewhere

/-- A member keeps its visibility, but if it has none it may be told the declared one, which is public by default. -/
def Told (m : Modifiers) (v v' : Option Visibility) : Prop :=
  v' = v ∨ v = none ∧ v' = some (m.visibility.getD .pub)

/-- Methods are parts of their own. -/
inductive MemberTold : Member → Member → Prop
  | property {n d m v v' p} : Told m v v' → MemberTold (.property ⟨n, d, m, v, p⟩) (.property ⟨n, d, m, v', p⟩)
  | const {n e m v v' p} : Told m v v' → MemberTold (.const ⟨n, e, m, v, p⟩) (.const ⟨n, e, m, v', p⟩)
  | method {m} : MemberTold (.method m) (.method m)
  | traitUse {ns} : MemberTold (.traitUse ns) (.traitUse ns)

/-- What annotations change of a part by itself. -/
inductive Decorates (scriptInterface : String) (a : Area) : Part → Part → Prop
  | stmt {s} : Decorates scriptInterface a (.stmt s) (.stmt s)
  | closure {c} : Decorates scriptInterface a (.closure c) (.closure c)
  | clause {c} : Decorates scriptInterface a (.clause c) (.clause c)
  | expr {e} : Decorates scriptInterface a (.expr e) (.expr e)
  | assignment {p t v first} : (declarable? t).isSome = true →
      Decorates scriptInterface a (.expr (.assign p t v none)) (.expr (.assign p t v (some first)))
  | param {n t t' d r v pr pos} : t' = (if a = .method then none else t) →
      Decorates scriptInterface a (.param ⟨n, t, d, r, v, pr, pos⟩) (.param ⟨n, t', d, r, v, pr, pos⟩)
  | method {n ps b r m v v' pos} : Told m v v' →
      Decorates scriptInterface a (.method ⟨n, ps, b, r, m, v, pos⟩) (.method ⟨n, ps, b, r, m, v', pos⟩)
  | cls {n pa is ms ms' ab f pos q apis apis'} : List.Forall₂ MemberTold ms ms' →
      (if a = .outside ∧ Class.lists ⟨n, pa, is, ms, ab, f, pos, q, apis⟩ scriptInterface = true
        then apis'.isSome = true else apis' = apis) →
      Decorates scriptInterface a (.cls ⟨n, pa, is, ms, ab, f, pos, q, apis⟩)
        (.cls ⟨n, pa, is, ms', ab, f, pos, q, apis'⟩)
  | iface {n ps ms ms' pos q} : List.Forall₂ MemberTold ms ms' →
      Decorates scriptInterface a (.iface ⟨n, ps, ms, pos, q⟩) (.iface ⟨n, ps, ms', pos, q⟩)

/-- The part with decorations, its own and those of all parts below it, and with nothing else changed. -/
abbrev Decorated (scriptInterface : String) : Area → Part → Part → Prop :=
  Edited (Area.enter scriptInterface) fun a _ => Decorates scriptInterface a

theorem Told.refl (m : Modifiers) (v : Option Visibility) : Told m v v := .inl rfl

theorem Told.stamped (m : Modifiers) (v : Option Visibility) : Told m v (stamped m v) := by
  cases v with
  | none => exact .inr ⟨rfl, rfl⟩
  | some v => exact .inl rfl

theorem Told.trans {m : Modifiers} {v v' v'' : Option Visibility} (h : Told m v v') (h' : Told m v' v'') :
    Told m v v'' := by
  rcases h with rfl | ⟨rfl, rfl⟩
  · exact h'
  · rcases h' with rfl | ⟨⟨⟩, -⟩
    exact .inr ⟨rfl, rfl⟩

theorem MemberTold.refl (m : Member) : MemberTold m m := by
  cases m with
  | property d =>
    obtain ⟨n, d, m, v, p⟩ := d
    exact .property (.refl m v)
  | const d =>
    obtain ⟨n, e, m, v, p⟩ := d
    exact .const (.refl m v)
  | method => exact .method
  | traitUse => exact .traitUse

theorem MemberTold.trans {m m' m'' : Member} (h : MemberTold m m') (h' : MemberTold m' m'') : MemberTold m m'' := by
  cases h with
  | property hv =>
    cases h' with
    | property hv' => exact .property (hv.trans hv')
  | const hv =>
    cases h' with
    | const hv' => exact .const (hv.trans hv')
  | method => exact h'
  | traitUse => exact h'

theorem membersTold_refl (ms : List Member) : List.Forall₂ MemberTold ms ms :=
  List.forall₂_same.2 fun m _ => .refl m

theorem membersTold_trans {ms ms' ms'' : List Member} (h : List.Forall₂ MemberTold ms ms')
    (h' : List.Forall₂ MemberTold ms' ms'') : List.Forall₂ MemberTold ms ms'' := by
  induction h generalizing ms'' with
  | nil => exact h'
  | cons hm _ ih =>
    cases h' with
    | cons hm' hms' => exact .cons (hm.trans hm') (ih hms')

theorem members_children {ms ms' : List Member} (h : List.Forall₂ MemberTold ms ms') :
    Part.members ms' = Part.members ms := by
  induction h with
  | nil => rfl
  | cons hm _ ih => cases hm <;> simp only [Part.members, ih]

theorem interfaceMembers_children {ms ms' : List Member} (h : List.Forall₂ MemberTold ms ms') :
    Part.interfaceMembers ms' = Part.interfaceMembers ms := by
  induction h with
  | nil => rfl
  | cons hm _ ih => cases hm <;> simp only [Part.interfaceMembers, ih]

section Decorated

variable {si : String} {a : Area}

namespace Decorates

theorem children {p p' : Part} (h : Decorates si a p p') : p'.children = p.children := by
  cases h with
  | cls hms _ => exact members_children hms
  | iface hms => exact interfaceMembers_children hms
  | _ => rfl

theorem paramKept (ha : a ≠ .method) (p : Param) : Decorates si a (.param p) (.param p) := by
  obtain ⟨n, t, d, r, v, pr, pos⟩ := p
  exact .param (if_neg ha).symm

theorem methodKept (m : Method) : Decorates si a (.method m) (.method m) := by
  obtain ⟨n, ps, b, r, m, v, pos⟩ := m
  exact .method (.refl m v)

theorem clsKept {c : Class} (hc : ¬(a = .outside ∧ c.lists si = true)) : Decorates si a (.cls c) (.cls c) := by
  obtain ⟨n, pa, is, ms, ab, f, pos, q, apis⟩ := c
  exact .cls (membersTold_refl ms) ((if_neg hc).symm ▸ rfl)

theorem ifaceKept (i : Interface) : Decorates si a (.iface i) (.iface i) := by
  obtain ⟨n, ps, ms, pos, q⟩ := i
  exact .iface (membersTold_refl ms)

theorem refl (p : Part) : Decorates si .elsewhere p p := by
  cases p with
  | expr => exact .expr
  | stmt => exact .stmt
  | closure => exact .closure
  | param p => exact paramKept (a := .elsewhere) nofun p
  | clause => exact .clause
  | method m => exact methodKept m
  | cls c => exact clsKept nofun
  | iface i => exact ifaceKept i

theorem trans {p p' p'' : Part} (h : Decorates si .elsewhere p p') (h' : Decorates si a p' p'') :
    Decorates si a p p'' := by
  cases h with
  | stmt | closure | clause | expr => exact h'
  | assignment ht =>
    cases h' with
    | expr => exact .assignment ht
  | param ht =>
    cases ht
    exact h'
  | method hv =>
    cases h' with
    | method hv' => exact .method (hv.trans hv')
  | cls hms hapis =>
    cases h' with
    | cls hms' hapis' =>
      cases hapis
      exact .cls (membersTold_trans hms hms') hapis'
  | iface hms =>
    cases h' with
    | iface hms' => exact .iface (membersTold_trans hms hms')

/-- Decorations do not move the parts below to another area. -/
theorem enter_eq {b : Area} {p q p' : Part} {R : Change Unit} {k k' : Unit} (hq : Rebuilt R k p q k')
    (h : Decorates si a q p') : b.enter si p' = b.enter si p := by
  cases h <;> cases hq <;> cases b <;> rfl

end Decorates

namespace Decorated

/-- A part that may stay as it is does so if all below it stands elsewhere. -/
theorem kept {p : Part} (hbelow : a.enter si p = .elsewhere) (h : Decorates si a p p) : Decorated si a p p := by
  induction p using Part.induction generalizing a with
  | step p ih =>
    refine edited_iff.2 ⟨p, .refl fun c hc => ?_, h⟩
    rw [hbelow]
    exact ih c hc rfl (.refl c)

theorem refl (p : Part) : Decorated si .elsewhere p p := kept rfl (.refl p)

/-- A variable stays. -/
theorem variable_eq {p : Position} {n : String} {s : Bool} {e : Expr}
    (h : Decorated si a (.expr (.variable p n s)) (.expr e)) : e = .variable p n s := by
  obtain ⟨q, hq, hdec⟩ := edited_iff.1 h
  cases hq with
  | leaf =>
    cases hdec with
    | expr => rfl

end Decorated

theorem memberTold_rebuilt {R : Change Unit} {k k' : Unit} {m m' n' : Member} (h : MemberTold m m')
    (hm' : R.Member k m' n' k') : ∃ n, R.Member k m n k' ∧ MemberTold n n' := by
  cases h with
  | property hv =>
    cases hm' with
    | property hd => exact ⟨_, .property hd, .property hv⟩
  | const hv =>
    cases hm' with
    | const he => exact ⟨_, .const he, .const hv⟩
  | method => exact ⟨_, hm', .refl _⟩
  | traitUse => exact ⟨_, hm', .refl _⟩

theorem interfaceMemberTold_rebuilt {R : Change Unit} {k k' : Unit} {m m' n' : Member} (h : MemberTold m m')
    (hm' : R.InterfaceMember k m' n' k') : ∃ n, R.InterfaceMember k m n k' ∧ MemberTold n n' := by
  cases hm' with
  | property =>
    cases h with
    | property hv => exact ⟨_, .property, .property hv⟩
  | other hnot hm' =>
    obtain ⟨n, hn, htold⟩ := memberTold_rebuilt h hm'
    have hm : m.property? = none := by cases h <;> first | rfl | cases hnot
    exact ⟨n, .other hm hn, htold⟩

/-- A list of members is rebuilt as it would be before its members are told anything, if each of them is. -/
theorem membersTold_rebuilt {S : Unit → Member → Member → Unit → Prop} {k k' : Unit} {ms ms' ns' : List Member}
    (h : List.Forall₂ MemberTold ms ms') (hms' : Each S k ms' ns' k')
    (hS : ∀ {k k' m m' n'}, MemberTold m m' → S k m' n' k' → ∃ n, S k m n k' ∧ MemberTold n n') :
    ∃ ns, Each S k ms ns k' ∧ List.Forall₂ MemberTold ns ns' := by
  induction h generalizing k ns' with
  | nil =>
    cases hms'
    exact ⟨[], .nil, .nil⟩
  | cons hm _ ih =>
    cases hms' with
    | cons hmember hrest =>
      obtain ⟨ns, hns, htold⟩ := ih hrest
      obtain ⟨n, hn, hmtold⟩ := hS hm hmember
      exact ⟨n :: ns, .cons hn hns, .cons hmtold htold⟩

/-- A decorated part is rebuilt as it would be without its decorations. -/
theorem Decorates.rebuilt {b : Area} {p p' q' : Part} (h : Decorates si .elsewhere p p')
    (hq' : Rebuilt (Childwise (Decorated si b)) () p' q' ()) :
    ∃ q, Rebuilt (Childwise (Decorated si b)) () p q () ∧ Decorates si .elsewhere q q' := by
  by_cases hleaf : p'.children = []
  -- With nothing below, the part itself is what it is rebuilt to.
  · obtain rfl := hq'.eq_of_children fun c hc => absurd (hleaf ▸ hc) List.not_mem_nil
    exact ⟨p, .leaf (h.children ▸ hleaf), h⟩
  cases h with
  | stmt | closure | clause | expr => exact ⟨q', hq', .refl q'⟩
  | param ht =>
    cases ht
    exact ⟨q', hq', .refl q'⟩
  | assignment ht =>
    cases hq' with
    | leaf h => exact absurd h hleaf
    | assign htarget hv =>
      -- The target is a variable, so it stays and can still be declared.
      obtain ⟨n, hn⟩ := Option.isSome_iff_exists.1 ht
      obtain ⟨-, q, rfl⟩ := declarable?_eq_some hn
      obtain rfl := Decorated.variable_eq (childwise_iff.1 htarget)
      exact ⟨_, .assign htarget hv, .assignment ht⟩
  | method hv =>
    cases hq' with
    | leaf h => exact absurd h hleaf
    | method hps hb => exact ⟨_, .method hps hb, .method hv⟩
  | cls hms hapis =>
    cases hq' with
    | leaf h => exact absurd h hleaf
    | cls hms' =>
      obtain ⟨ns, hns, htold⟩ := membersTold_rebuilt hms hms' memberTold_rebuilt
      exact ⟨_, .cls hns, .cls htold hapis⟩
  | iface hms =>
    cases hq' with
    | leaf h => exact absurd h hleaf
    | iface hms' =>
      obtain ⟨ns, hns, htold⟩ := membersTold_rebuilt hms hms' interfaceMemberTold_rebuilt
      exact ⟨_, .iface hns, .iface htold⟩

/-- What is decorated without regard to script classes can be decorated further. -/
theorem Decorated.trans {p p' p'' : Part} (h : Decorated si .elsewhere p p') (h' : Decorated si a p' p'') :
    Decorated si a p p'' := by
  induction p using Part.induction generalizing a p' p'' with
  | step p ih =>
    obtain ⟨q, hq, hdec⟩ := edited_iff.1 h
    obtain ⟨r, hr, hdec'⟩ := edited_iff.1 h'
    -- The children are changed twice first, and then the part is decorated twice.
    obtain ⟨s, hs, hdecs⟩ := hdec.rebuilt hr
    have htwice := hq.trans hs
    rw [Decorates.enter_eq hq hdec] at htwice
    refine edited_iff.2 ⟨s, htwice.steady (fun _ => rfl) fun c hc _ hchild => ?_, hdecs.trans hdec'⟩
    obtain ⟨c', hcs, b, hb, hc'⟩ := hchild
    exact ⟨c', hcs, ih c hc hb hc'⟩

end Decorated

/-! ## Passes -/

section Passes

variable (si : String)

/-- What annotations make of a part in an area. -/
abbrev Decorating (a : Area) : Change Unit := Childwise (Decorated si a)

namespace Decorating

variable {si} {a : Area} {p p' q : Part}

theorem edited (h : Rebuilt (Decorating si a) () p q ()) (ha : a.enter si p = a) (hq : Decorates si a q p') :
    Decorating si a () p [p'] () := childwise_iff.2 (edited_iff.2 ⟨q, by rwa [ha], hq⟩)

theorem rebuilt (h : Rebuilt (Decorating si .elsewhere) () p q ()) : Decorating si .elsewhere () p [q] () :=
  edited h rfl (.refl q)

end Decorating

/-- Members become what they are told, one after the other. -/
theorem exists_told {S : Unit → Member → Member → Unit → Prop} {f : Member → Member}
    (h : ∀ m, ∃ n, S () m n () ∧ MemberTold n (f m)) (ms : List Member) :
    ∃ ns, Each S () ms ns () ∧ List.Forall₂ MemberTold ns (ms.map f) := by
  induction ms with
  | nil => exact ⟨[], .nil, .nil⟩
  | cons m ms ih =>
    obtain ⟨ns, hns, htold⟩ := ih
    obtain ⟨n, hn, hm⟩ := h m
    exact ⟨n :: ns, .cons hn hns, .cons hm htold⟩

theorem stampMember_told (m : Member) :
    ∃ n, Change.Member (Decorating si .elsewhere) () m n () ∧ MemberTold n (stampMember m) := by
  have hkept (e : Expr) : Decorating si .elsewhere () (.expr e) [.expr e] () := childwise_iff.2 (.refl _)
  cases m with
  | property d =>
    obtain ⟨n, d, m, v, p⟩ := d
    exact ⟨_, .property (.refl hkept d), .property (.stamped m v)⟩
  | const d =>
    obtain ⟨n, e, m, v, p⟩ := d
    exact ⟨_, .const (hkept e), .const (.stamped m v)⟩
  | method d =>
    obtain ⟨n, ps, b, r, m, v, pos⟩ := d
    have hm : Decorated si .elsewhere (.method ⟨n, ps, b, r, m, v, pos⟩)
        (.method ⟨n, ps, b, r, m, stamped m v, pos⟩) :=
      edited_iff.2 ⟨_, .refl fun c _ => Decorated.refl c, .method (.stamped m v)⟩
    exact ⟨_, .method (childwise_iff.2 hm), .method⟩
  | traitUse ns => exact ⟨_, .traitUse, .traitUse⟩

theorem stampInterfaceMember_told (m : Member) :
    ∃ n, Change.InterfaceMember (Decorating si .elsewhere) () m n () ∧ MemberTold n (stampMember m) := by
  by_cases hm : m.property? = none
  · obtain ⟨n, hn, htold⟩ := stampMember_told si m
    exact ⟨n, .other hm hn, htold⟩
  · cases m with
    | property d =>
      obtain ⟨n, d, m, v, p⟩ := d
      exact ⟨_, .property, .property (.stamped m v)⟩
    | _ => exact absurd rfl hm

theorem visibility_decorates : Sound (.plain Unit) visibility (Decorating si .elsewhere)
    fun k e e' k' => Rebuilt (Decorating si .elsewhere) k (.expr e) (.expr e') k' where
  below _ h := h
  array hvs := Rebuilt.array (VisitsItem.mapM hvs _)
  store hv := hv.inOrder _
  expr h := .rebuilt (h ())
  stmt h := .rebuilt (h ())
  param h := .rebuilt (h ())
  closure h := .rebuilt (h ())
  clause h := .rebuilt (h ())
  method h := .rebuilt (h ())
  cls {_ c _} _ := by
    obtain ⟨ns, hns, htold⟩ := exists_told (stampMember_told si) c.members
    obtain ⟨n, pa, is, ms, ab, f, pos, q, apis⟩ := c
    exact .edited (.cls hns) rfl (.cls htold rfl)
  iface {_ i _} _ := by
    obtain ⟨ns, hns, htold⟩ := exists_told (stampInterfaceMember_told si) i.members
    obtain ⟨n, ps, ms, pos, q⟩ := i
    exact .edited (.iface hns) rfl (.iface htold)

theorem markAssignment_decorates (e : Expr) (known : Known) :
    Decorates si .elsewhere (.expr e) (.expr ((markAssignment e).run known).1) := by
  rcases markAssignment_cases e known with ⟨p, t, v, d, n, names, rfl, ht, rfl, hrun⟩ | ⟨-, hrun⟩
  · rw [hrun]
    cases d with
    | none => exact .assignment (Option.isSome_iff_exists.2 ⟨n, ht⟩)
    | some d => exact .expr
  · rw [hrun]
    exact .expr

theorem declarations_decorates : Sound (.anyState Known Unit) declarations (Decorating si .elsewhere)
    fun k e e' k' => Rebuilt (Decorating si .elsewhere) k (.expr e) (.expr e') k' where
  below _ h := h
  array hvs := Logic.map _ (VisitsItem.mapM hvs _) fun _ _ h => .array h
  store hv := hv.inOrder _
  expr h := Logic.bind _ (h ()) fun e _ he known =>
    Decorating.edited he rfl (markAssignment_decorates si e known)
  stmt h := Logic.bind _ (h ()) fun _ _ hs => Logic.pure _ (Decorating.rebuilt hs)
  param h := Logic.weaken _ (h ()) fun _ _ hp => .rebuilt hp
  closure h _ := .rebuilt (h () _)
  clause h _ := .rebuilt (h () _)
  method h _ := .rebuilt (h () _)
  cls h := Logic.weaken _ (h ()) fun _ _ hc => .rebuilt hc
  iface h := Logic.weaken _ (h ()) fun _ _ hi => .rebuilt hi

theorem erasedParams_decorated (ps : List Param) :
    Each (Change.param (Decorating si .method)) () ps (ps.map ({ · with type := none })) () := by
  induction ps with
  | nil => exact .nil
  | cons p ps ih =>
    obtain ⟨n, t, d, r, v, pr, pos⟩ := p
    refine .cons (childwise_iff.2 (edited_iff.2 ⟨_, .refl fun c _ => ?_, .param rfl⟩)) ih
    exact Decorated.refl c

theorem erasedMethod_decorated (m : Method) : Decorated si .script (.method m)
    (.method { m with params := m.params.map ({ · with type := none }) }) := by
  obtain ⟨n, ps, b, r, mo, v, pos⟩ := m
  have hkept (ss : List Stmt) : Change.Stmts (Decorating si .method) () ss ss () :=
    Change.stmts_iff.2 (List.forall₂_same.2 fun s _ => Decorated.kept rfl .stmt)
  exact edited_iff.2 ⟨_, .method (erasedParams_decorated si ps) (.refl hkept b), .methodKept _⟩

theorem erasedMembers_decorated (ms : List Member) :
    Each (Change.Member (Decorating si .script)) () ms (ms.map eraseTypes) () := by
  have hkept (e : Expr) : Decorating si .script () (.expr e) [.expr e] () :=
    childwise_iff.2 (Decorated.kept rfl .expr)
  induction ms with
  | nil => exact .nil
  | cons m ms ih =>
    cases m with
    | property d =>
      obtain ⟨n, d, m, v, p⟩ := d
      exact .cons (.property (.refl hkept d)) ih
    | const d =>
      obtain ⟨n, e, m, v, p⟩ := d
      exact .cons (.const (hkept e)) ih
    | method m => exact .cons (.method (childwise_iff.2 (erasedMethod_decorated si m))) ih
    | traitUse ns => exact .cons .traitUse ih

theorem scriptClass_decorated {c c' : Class} {act : Result Class} (h : (scriptApis si).cls c act = .ok c') :
    Decorated si .outside (.cls c) (.cls c') := by
  simp only [scriptApis] at h
  split at h
  · next hlists =>
    obtain ⟨apis, -, hc'⟩ := bind_eq_ok.1 h
    cases hc'
    have harea : Area.enter si .outside (.cls c) = .script := if_pos hlists
    have hms := erasedMembers_decorated si c.members
    refine edited_iff.2 ?_
    rw [harea]
    obtain ⟨n, pa, is, ms, ab, f, pos, q, old⟩ := c
    exact ⟨_, .cls hms, .cls (membersTold_refl _) (by rw [if_pos ⟨rfl, hlists⟩]; rfl)⟩
  · next hlists =>
    cases h
    exact .kept (if_neg hlists) (.clsKept fun hc => hlists hc.2)

theorem scriptApis_decorates : Sound (.unlessFailed Diagnostic Unit) (scriptApis si) (Decorating si .outside)
    fun k e e' k' => Rebuilt (Decorating si .outside) k (.expr e) (.expr e') k' where
  below _ h := h
  array hvs := Logic.map _ (VisitsItem.mapM hvs _) fun _ _ h => .array h
  store hv := hv.inOrder _
  expr h := Logic.weaken _ (h ()) fun _ _ he => .edited he rfl .expr
  stmt h := Logic.bind _ (h ()) fun _ _ hs => Logic.pure _ (Decorating.edited hs rfl .stmt)
  param h := Logic.weaken _ (h ()) fun _ _ hp => .edited hp rfl (.paramKept (a := .outside) nofun _)
  closure h := Logic.weaken _ (h ()) fun _ _ hc => .edited hc rfl .closure
  clause h := Logic.weaken _ (h ()) fun _ _ hc => .edited hc rfl .clause
  method h := Logic.weaken _ (h ()) fun _ _ hm => .edited hm rfl (.methodKept _)
  cls _ _ hc' := childwise_iff.2 (scriptClass_decorated si hc')
  iface h := Logic.weaken _ (h ()) fun _ _ hi => .edited hi rfl (.ifaceKept _)

end Passes

/-! ## Buckets -/

/-- Whether a part stands in a class. -/
def enterClass : Bool → Part → Bool
  | _, .cls _ => true
  | inside, _ => inside

/-- In a class, a member of `$this` is put in a bucket; all else stays as it is. -/
inductive Buckets (inside : Bool) : Part → Part → Part → Prop
  | access {e e' v} : inside = true → (thisMember? e).isSome = true →
      Buckets inside (.expr e) (.expr e') (.expr (withBucket v e'))
  | kept {p p'} : (∀ e, p = .expr e → inside = true → thisMember? e = none) → Buckets inside p p' p'

/-- The part with buckets, in it and in all parts below it, and with nothing else changed. -/
abbrev InBuckets : Bool → Part → Part → Prop := Edited enterClass Buckets

/-- What the pass makes of a part in a class, or outside of classes. -/
structure BucketedAt (cls : Option String) (p : Part) (ps : List Part) (cls' : Option String) : Prop where
  same : cls' = cls
  one : ∃ p', ps = [p'] ∧ InBuckets cls.isSome p p'

namespace BucketedAt

variable {cls cls₁ cls' : Option String} {p p' q : Part}

theorem edited (h : Rebuilt BucketedAt cls₁ p q cls') (hcls : cls₁.isSome = enterClass cls.isSome p)
    (hedit : Buckets cls.isSome p q p') : BucketedAt cls p [p'] cls where
  same := rfl
  one := ⟨p', rfl, .of_rebuilt BucketedAt.same h (fun _ _ _ hc => hcls ▸ hc.one) hedit⟩

theorem rebuilt (h : Rebuilt BucketedAt cls p q cls') (hcls : ∀ b, enterClass b p = b) (hp : ∀ e, p ≠ .expr e) :
    BucketedAt cls p [q] cls' := by
  obtain rfl := h.children.same BucketedAt.same
  exact edited h (hcls _).symm (.kept fun e he => absurd he (hp e))

end BucketedAt

theorem access_buckets : Sound (.reading (Option String) (.answered Diagnostic Unit fun _ => ())) access BucketedAt
    fun k e e' k' => Rebuilt BucketedAt k (.expr e) (.expr e') k' where
  below _ h := h
  array hvs := Logic.map _ (VisitsItem.mapM hvs _) fun _ _ h => .array h
  store hv := hv.inOrder _
  expr {k e act} h := by
    rw [Logic.reading_gives, access_expr_run]
    split
    · next n c hn =>
      refine Logic.bind _ (P := fun _ _ => True) (fun r => ⟨rfl, fun _ _ => trivial⟩)
        fun v _ _ => Logic.bind _ (Logic.reading_gives.1 (h _)) fun e' _ he' => Logic.pure _ ?_
      exact .edited he' rfl (.access rfl (Option.isSome_iff_exists.2 ⟨n, hn⟩))
    · next hnone =>
      refine Logic.weaken _ (Logic.reading_gives.1 (h _)) fun e' _ he' => .edited he' rfl (.kept ?_)
      rintro _ ⟨⟩ hclass
      obtain ⟨c, rfl⟩ := Option.isSome_iff_exists.1 hclass
      exact Option.eq_none_iff_forall_ne_some.2 fun n hn => hnone n c hn rfl
  stmt h := Logic.bind _ (h _) fun _ _ hs => Logic.pure _ (BucketedAt.rebuilt hs (fun _ => rfl) nofun)
  param h := Logic.weaken _ (h _) fun _ _ hp => .rebuilt hp (fun _ => rfl) nofun
  closure h := Logic.weaken _ (h _) fun _ _ hc => .rebuilt hc (fun _ => rfl) nofun
  clause h := Logic.weaken _ (h _) fun _ _ hc => .rebuilt hc (fun _ => rfl) nofun
  method h := Logic.weaken _ (h _) fun _ _ hm => .rebuilt hm (fun _ => rfl) nofun
  cls {k c act} h := by
    rw [Logic.reading_gives]
    show (Logic.answered Diagnostic Unit _).Gives () (act.run (some c.qualifiedName)) _
    exact Logic.weaken _ (Logic.reading_gives.1 (h _)) fun _ _ hc => .edited hc rfl (.kept nofun)
  iface h := Logic.weaken _ (h _) fun _ _ hi => .rebuilt hi (fun _ => rfl) nofun

end Annotate

/-! ## Files -/

namespace SourceFile

/-- The file with its statements changed, each into one. -/
def Changed (S : Part → Part → Prop) (f f' : SourceFile) : Prop :=
  f'.path = f.path ∧ List.Forall₂ S (Part.stmts f.stmts) (Part.stmts f'.stmts)

variable {f f' : SourceFile}

theorem annotate_decorates {si : String} (h : f.annotate si = .ok f') :
    f.Changed (Annotate.Decorated si .outside) f' := by
  obtain ⟨ss, hss, hf'⟩ := bind_eq_ok.1 h
  cases hf'
  have hstamped := (Annotate.visibility_decorates si).stmts f.stmts ()
  have hmarked := (Annotate.declarations_decorates si).stmts f.stamp.stmts () none
  have hscripts := (Annotate.scriptApis_decorates si).stmts _ () ss hss
  have hall := ((hstamped.comp hmarked).comp hscripts).chunks.forall₂
  exact ⟨rfl, hall.imp fun _ _ ⟨_, ⟨_, hstamp, hmark⟩, hscript⟩ => (hstamp.trans hmark).trans hscript⟩

theorem markAccess_buckets {r : Registry} (h : (f.markAccess.run.run r).1 = .ok f') :
    f.Changed (Annotate.InBuckets false) f' := by
  have hgives : (Logic.reading (Option String) (.answered Diagnostic Unit fun _ => ())).Gives none
      (f.through Annotate.access) fun f' _ => f.Changed (Annotate.InBuckets false) f' := by
    refine Logic.bind _ (Annotate.access_buckets.stmts f.stmts none) fun ss _ hss => Logic.pure _ ⟨rfl, ?_⟩
    have hstmts : Change.Stmts (Childwise (Annotate.InBuckets false)) () f.stmts ss () :=
      hss.steady Annotate.BucketedAt.same fun _ _ _ hs => hs.one
    exact hstmts.chunks.forall₂
  exact (markAccess_gives hgives r).2 f' h

/-- All that annotations change in a file are the decorations of its parts, and all that is changed where access is
marked are the buckets of members of `$this` in classes. -/
theorem annotations_only_decorate (si : String) (f : SourceFile) :
    (∀ f', f.annotate si = .ok f' → f.Changed (Annotate.Decorated si .outside) f') ∧
    ∀ r f', (f.markAccess.run.run r).1 = .ok f' → f.Changed (Annotate.InBuckets false) f' :=
  ⟨fun _ => annotate_decorates, fun _ _ => markAccess_buckets⟩

/-- A script class whose constructor takes a console and assigns a member of `$this`. -/
theorem script_only_decorated :
    let file (type : Option TypeHint) (apis : Option (List String)) (v b : Option Visibility) (first : Option Bool) :
        SourceFile :=
      ⟨"a.php", [.classDecl ⟨"A", none, [.parse "S"], [.method ⟨"__construct",
        [⟨"c", type, none, false, false, false, .unknown⟩],
        some [.expression (.assign .unknown (.variable .unknown "x" false)
          (.property .unknown (.variable .unknown "this" false) (.ident "y") b) first)],
        false, {}, v, .unknown⟩], false, false, .unknown, none, apis⟩]⟩
    let raw := file (some ⟨.parse "Phpjs\\Api\\Console", false⟩) none none none none
    let annotated := file none (some ["Phpjs\\Api\\Console"]) (some .pub) none (some true)
    let marked := file none (some ["Phpjs\\Api\\Console"]) (some .pub) (some .priv) (some true)
    let registry : Registry := { memo := [(("A", "y"), .priv)] }
    (raw.annotate "S" = .ok annotated ∧ raw.Changed (Annotate.Decorated "S" .outside) annotated) ∧
      (annotated.markAccess.run.run registry).1 = .ok marked ∧
      annotated.Changed (Annotate.InBuckets false) marked := by
  intro file raw annotated marked registry
  have hannotated : raw.annotate "S" = .ok annotated := by rfl
  have hmarked : (annotated.markAccess.run.run registry).1 = .ok marked := by rfl
  exact ⟨⟨hannotated, (annotations_only_decorate "S" raw).1 _ hannotated⟩, hmarked,
    (annotations_only_decorate "S" annotated).2 _ _ hmarked⟩

end SourceFile

end ClassScript
