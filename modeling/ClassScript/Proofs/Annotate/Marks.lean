import ClassScript.Annotate
import ClassScript.Annotate.Access
import ClassScript.Proofs.Annotate.Bindings
import ClassScript.Proofs.Emit.Ready
import ClassScript.Proofs.Registry.Names
/-!
# The marks of a declaration

Where a part stands decides which marks it has when it is emitted: the members of a class at file level
are told their visibility, in a function every assignment to a variable says whether it declares it, and in a
class every member of `$this` has a bucket. Each pass sets one kind of mark and keeps the others
(`visibility_sound`, `declarations_sound`, `scriptApis_sound`, `access_sound`). What stands in a class but in no
function, like the default of a property, has no marks for its assignments; and what stands in an interface has no
buckets.
-/

namespace ClassScript

/-- The member is told its visibility, if it has one. -/
def Member.Stamped : Member → Prop
  | .property d => d.resolved.isSome = true
  | .const d => d.resolved.isSome = true
  | .method d => d.resolved.isSome = true
  | .traitUse _ => True

/-- Every member of a class is told its visibility. -/
def Part.Stamped : Part → Prop
  | .cls c => ∀ m ∈ c.members, m.Stamped
  | _ => True

theorem Member.stamped_bare (m : Member) : m.bare.Stamped ↔ m.Stamped := by cases m <;> rfl

theorem Part.stamped_bare (p : Part) : p.bare.Stamped ↔ p.Stamped := by
  cases p with
  | cls c =>
    simp only [bare, Stamped, List.forall_mem_map, Member.stamped_bare]
  | _ => rfl

namespace Annotate

/-! ## Places -/

/-- Where a part stands: at file level, in a class at file level or in a function there, in an interface at file
level or in a function there, or in what is not emitted with these. -/
inductive Spot where
  | file
  | member
  | function
  | constant
  | closure
  | apart
deriving DecidableEq

namespace Spot

def enter : Spot → Part → Spot
  | .file, .cls _ => .member
  | .file, .iface _ => .constant
  | .member, .method _ | .member, .closure _ | .function, .closure _ => .function
  | .constant, .closure _ | .closure, .closure _ => .closure
  | s, .expr _ | s, .stmt _ | s, .param _ | s, .clause _ => s
  | _, _ => .apart

def inFunction : Spot → Bool
  | .function | .closure => true
  | _ => false

def inClass : Spot → Bool
  | .member | .function => true
  | _ => false

end Spot

theorem Spot.enter_ne_file {s : Spot} (h : s ≠ .file) (p : Part) : s.enter p ≠ .file := by
  cases s with
  | file => exact absurd rfl h
  | _ => cases p <;> nofun

/-- Nothing is left to simplify. -/
def simpleShape : Shape Spot where
  enter := Spot.enter
  holds _ p := p.Simple
  enter_expr b _ := by cases b <;> rfl
  enter_stmt b _ := by cases b <;> rfl
  enter_param b _ := by cases b <;> rfl
  enter_bare b p := by cases b <;> cases p <;> rfl
  holds_bare _ p := p.simple_bare

/-- Members of classes at file level are told their visibility. -/
def stampedShape : Shape Spot :=
  simpleShape.and (fun s p => s = .file → p.Stamped) fun _ p => by rw [p.stamped_bare]

/-- In functions, assignments say whether they declare. -/
def markedShape : Shape Spot :=
  stampedShape.and (fun s p => s.inFunction = true → p.Marked) fun _ p => by rw [p.marked_bare]

/-- In classes, members of `$this` are in a bucket. -/
def bucketedShape : Shape Spot :=
  markedShape.and (fun s p => s.inClass = true → p.Bucketed) fun _ p => by rw [p.bucketed_bare]

/-! ## Visibility -/

/-- Below file level, the visibility of members does not matter. -/
theorem stamped_below {b : Spot} {p : Part} (hb : b ≠ .file) (h : Throughout simpleShape b p) :
    Throughout stampedShape b p :=
  h.imp (fun b c => c = b ∧ b ≠ .file) (fun ⟨hc, hb⟩ _ => ⟨by rw [hc]; rfl, Spot.enter_ne_file hb _⟩)
    (fun ⟨hc, hb⟩ hold => ⟨hold, fun hfile => absurd (hc.symm.trans hfile) hb⟩) ⟨rfl, hb⟩

theorem stampMember_throughout {b : Spot} {ms : List Member}
    (h : ∀ c ∈ Part.members ms, Throughout simpleShape b c) :
    ∀ c ∈ Part.members (ms.map stampMember), Throughout simpleShape b c := by
  induction ms with
  | nil => exact h
  | cons m rest ih =>
    cases m with
    | property d =>
      obtain ⟨hd, hrest⟩ := List.forall_mem_append.1 h
      exact List.forall_mem_append.2 ⟨hd, ih hrest⟩
    | const d =>
      obtain ⟨hd, hrest⟩ := List.forall_mem_cons.1 h
      exact List.forall_mem_cons.2 ⟨hd, ih hrest⟩
    | method d =>
      obtain ⟨hd, hrest⟩ := List.forall_mem_cons.1 h
      refine List.forall_mem_cons.2 ⟨throughout_iff.2 ⟨trivial, fun c hc => ?_⟩, ih hrest⟩
      have hbelow := hd.child hc
      cases b <;> exact hbelow
    | traitUse ns => exact ih h

theorem stamped_isSome (m : Modifiers) (resolved : Option Visibility) :
    (stamped m resolved).isSome = true := by cases resolved <;> rfl

theorem stampMember_stamped (m : Member) : (stampMember m).Stamped := by
  cases m with
  | traitUse => trivial
  | _ => exact stamped_isSome _ _

theorem stampedClass_throughout {b : Spot} {c : Class} (h : Throughout simpleShape b (.cls c)) :
    Throughout stampedShape b (.cls { c with members := c.members.map stampMember }) := by
  refine throughout_iff.2 ⟨⟨trivial, fun _ => List.forall_mem_map.2 fun m _ => stampMember_stamped m⟩, fun q hq => ?_⟩
  have hbelow := stampMember_throughout (fun q hq => h.child hq) q hq
  cases b <;> exact stamped_below (by rintro ⟨⟩) hbelow

theorem stampedInterface_throughout {b : Spot} {i : Interface}
    (h : Throughout simpleShape b (.iface i)) :
    Throughout stampedShape b (.iface { i with members := i.members.map stampMember }) := by
  refine throughout_iff.2 ⟨⟨trivial, fun _ => trivial⟩, fun q hq => ?_⟩
  rw [Part.children, Part.interfaceMembers_map property?_stampMember] at hq
  have hmembers : ∀ c ∈ Part.members (i.members.filter (·.property?.isNone)),
      Throughout simpleShape (simpleShape.enter b (.iface i)) c := by
    rw [← Part.interfaceMembers_eq]
    exact fun c hc => h.child hc
  have hbelow := stampMember_throughout hmembers q hq
  cases b <;> exact stamped_below (by rintro ⟨⟩) hbelow

/-- Members are told their visibility behind the pass. -/
theorem visibility_sound : Sound (.plain Unit) visibility (Turned simpleShape stampedShape)
    fun k e e' k' => Rebuilt (Turned simpleShape stampedShape) k (.expr e) (.expr e') k' where
  below _ h := h
  array hvs := Rebuilt.array (VisitsItem.mapM hvs _)
  store hv := hv.inOrder _
  expr h := .rebuilt (h _) rfl fun hold => ⟨hold, fun _ => trivial⟩
  stmt h := .rebuilt (h _) rfl fun hold => ⟨hold, fun _ => trivial⟩
  param h := .rebuilt (h _) rfl fun hold => ⟨hold, fun _ => trivial⟩
  closure h := .rebuilt (h _) rfl fun hold => ⟨hold, fun _ => trivial⟩
  clause h := .rebuilt (h _) rfl fun hold => ⟨hold, fun _ => trivial⟩
  method h := .rebuilt (h _) rfl fun hold => ⟨hold, fun _ => trivial⟩
  cls _ := Carried.one rfl fun _ => stampedClass_throughout
  iface _ := Carried.one rfl fun _ => stampedInterface_throughout

/-! ## Declarations -/

/-- What a part of the pass is told: whether it stands in a function. -/
def Inside (inside : Bool) (known : Known) : Prop := known.isSome = inside

/-- Places in functions are met in a function only. -/
def InMethod (inside : Bool) (spot : Spot) : Prop := spot.inFunction = true → inside = true

theorem inFunction_gives {α : Type} {start : List String} {act : StateM Known α} {inside : Bool}
    {P : α → Bool → Prop} (h : (Logic.tracking Inside).Gives true act P) :
    (Logic.tracking Inside).Gives inside (inFunction start act) fun a k =>
      k = inside ∧ ∃ k', P a k' := by
  intro known hknown
  obtain ⟨k', -, hP⟩ := h (some start) rfl
  exact ⟨inside, hknown, rfl, k', hP⟩

theorem InMethod.within {inside : Bool} {b : Spot} {p : Part} (hm : ∀ m, p ≠ .method m)
    (hc : ∀ c, p ≠ .closure c) (h : InMethod inside b) : InMethod inside (b.enter p) := by
  cases p with
  | method m => exact absurd rfl (hm m)
  | closure c => exact absurd rfl (hc c)
  | cls _ | iface _ => cases b <;> nofun
  | _ => cases b <;> exact h

theorem marked_of_not_declarable {e : Expr} (h : ∀ p t v d, e = .assign p t v d → declarable? t = none) :
    (Part.expr e).Marked := by
  cases e with
  | assign p t v d =>
    cases t with
    | «variable» q n s =>
      cases s with
      | false => exact fun hn => absurd ((declarable?_var hn q).symm.trans (h _ _ _ _ rfl)) nofun
      | true => trivial
    | _ => trivial
  | _ => trivial

/-- The change that the pass for declarations makes. -/
abbrev Declaring : Change Bool := Carried InMethod (Throughout stampedShape) (Throughout markedShape)

theorem markAssignment_gives {inside inside' : Bool} {e e' : Expr}
    (h : Rebuilt Declaring inside (.expr e) (.expr e') inside') :
    (Logic.tracking Inside).Gives inside' (markAssignment e') (Declaring.expr inside e) := by
  intro known hknown
  obtain rfl := h.same
  rcases markAssignment_cases e' known with ⟨p, t, v, d, n, names, rfl, ht, rfl, hrun⟩ | ⟨hnone, hrun⟩
  · rw [hrun]
    refine ⟨inside', hknown, Carried.edited h rfl (.within nofun nofun) fun _ _ hcs => ?_⟩
    obtain ⟨-, q, rfl⟩ := declarable?_eq_some ht
    refine throughout_expr.2 ⟨⟨⟨trivial, fun _ => trivial⟩, fun _ _ => by cases d <;> rfl⟩, ?_⟩
    rwa [stampedShape.enter_expr] at hcs
  · rw [hrun]
    refine ⟨inside', hknown, Carried.edited h rfl (.within nofun nofun) fun hb hold hcs => ?_⟩
    refine throughout_iff.2 ⟨⟨hold, fun hfunction => ?_⟩, hcs⟩
    refine marked_of_not_declarable (hnone.resolve_left ?_)
    rintro rfl
    exact absurd (hknown.trans (hb hfunction)) nofun

/-- A function is marked on its own. -/
theorem function_gives {inside : Bool} {start : List String} {α : Type} {act : StateM Known α}
    {part : α → Part} {p : Part} (hholds : p.Marked)
    (h : (Logic.tracking Inside).Gives true act fun a k' => Rebuilt Declaring true p (part a) k') :
    (Logic.tracking Inside).Gives inside (inFunction start act) fun a k' =>
      Declaring inside p [part a] k' := by
  refine Logic.weaken _ (inFunction_gives h) ?_
  rintro a _ ⟨rfl, k', ha⟩
  refine Carried.entered ha rfl (fun _ _ => rfl) fun _ hold hcs => throughout_iff.2 ⟨⟨hold, fun _ => ?_⟩, hcs⟩
  rwa [← Part.marked_bare, ha.bare_carried, Part.marked_bare]

/-- Assignments in methods say whether they declare, behind the pass. -/
theorem declarations_sound : Sound (.tracking Inside) declarations Declaring
    fun k e e' k' => Rebuilt Declaring k (.expr e) (.expr e') k' where
  below _ h := h
  array hvs := Logic.map _ (VisitsItem.mapM hvs _) fun _ _ h => .array h
  store hv := hv.inOrder _
  expr h := Logic.bind _ (h _) fun _ _ => markAssignment_gives
  stmt h := Logic.bind _ (h _) fun _ _ hs => Logic.pure _ <|
    Carried.rebuilt hs rfl (.within nofun nofun) fun _ hold => ⟨hold, fun _ => trivial⟩
  param h := Logic.weaken _ (h _) fun _ _ hp =>
    .rebuilt hp rfl (.within nofun nofun) fun _ hold => ⟨hold, fun _ => trivial⟩
  closure h := function_gives trivial (h true)
  clause {k _ _} h known hknown := by
    obtain ⟨k', hk', hc⟩ := h k (known.map _) (Option.isSome_map.trans hknown)
    exact ⟨k', hk', .rebuilt hc rfl (.within nofun nofun) fun _ hold => ⟨hold, fun _ => trivial⟩⟩
  method h := function_gives trivial (h true)
  cls h := Logic.weaken _ (h _) fun _ _ hc =>
    .rebuilt hc rfl (.within nofun nofun) fun _ hold => ⟨hold, fun _ => trivial⟩
  iface h := Logic.weaken _ (h _) fun _ _ hi =>
    .rebuilt hi rfl (.within nofun nofun) fun _ hold => ⟨hold, fun _ => trivial⟩

/-! ## Script APIs -/

theorem erasedMethod_throughout {b : Spot} {d : Method} (h : Throughout markedShape b (.method d)) :
    Throughout markedShape b (.method { d with params := d.params.map ({ · with type := none }) }) := by
  have hbare : (Part.method { d with params := d.params.map ({ · with type := none }) }).bare =
      (Part.method d).bare := by
    simp only [Part.bare, List.map_map]
    rfl
  refine throughout_iff.2 ⟨(markedShape.holds_congr hbare).2 h.head, ?_⟩
  rw [markedShape.enter_congr hbare]
  refine List.forall_mem_append.2 ⟨fun c hc => ?_, fun c hc => h.child (List.mem_append_right _ hc)⟩
  obtain ⟨_, herased, rfl⟩ := List.mem_map.1 hc
  obtain ⟨p, hp, rfl⟩ := List.mem_map.1 herased
  have hparam := throughout_param.1 (h.child (List.mem_append_left _ (List.mem_map_of_mem hp)))
  exact throughout_param.2 ⟨⟨⟨trivial, fun _ => trivial⟩, fun _ => trivial⟩, hparam.2⟩

theorem eraseTypes_throughout {b : Spot} {ms : List Member}
    (h : ∀ c ∈ Part.members ms, Throughout markedShape b c) :
    ∀ c ∈ Part.members (ms.map eraseTypes), Throughout markedShape b c := by
  induction ms with
  | nil => exact h
  | cons m rest ih =>
    cases m with
    | property d =>
      obtain ⟨hd, hrest⟩ := List.forall_mem_append.1 h
      exact List.forall_mem_append.2 ⟨hd, ih hrest⟩
    | const d =>
      obtain ⟨hd, hrest⟩ := List.forall_mem_cons.1 h
      exact List.forall_mem_cons.2 ⟨hd, ih hrest⟩
    | method d =>
      obtain ⟨hd, hrest⟩ := List.forall_mem_cons.1 h
      exact List.forall_mem_cons.2 ⟨erasedMethod_throughout hd, ih hrest⟩
    | traitUse ns => exact ih h

theorem erasedClass_throughout {b : Spot} {c : Class} (apis : List String)
    (h : Throughout markedShape b (.cls c)) :
    Throughout markedShape b
      (.cls { c with scriptApis := some apis, members := c.members.map eraseTypes }) := by
  have hstamped (hc : (Part.cls c).Stamped) :
      (Part.cls { c with scriptApis := some apis, members := c.members.map eraseTypes }).Stamped := by
    refine List.forall_mem_map.2 fun m hm => ?_
    have hm' := hc m hm
    cases m with
    | _ => exact hm'
  refine throughout_iff.2 ⟨⟨⟨trivial, fun hb => hstamped (h.head.1.2 hb)⟩, fun _ => trivial⟩, fun q hq => ?_⟩
  have hbelow := eraseTypes_throughout (fun q hq => h.child hq) q hq
  cases b <;> exact hbelow

/-- All marks are kept by the pass for script APIs. -/
theorem scriptApis_sound (si : String) :
    Sound (.unlessFailed Diagnostic Unit) (scriptApis si) (Turned markedShape markedShape)
      fun k e e' k' => Rebuilt (Turned markedShape markedShape) k (.expr e) (.expr e') k' where
  below _ h := h
  array hvs := Logic.map _ (VisitsItem.mapM hvs _) fun _ _ h => .array h
  store hv := hv.inOrder _
  expr h := Logic.weaken _ (h _) fun _ _ he => .rebuilt he rfl id
  stmt h := Logic.bind _ (h _) fun _ _ hs => Logic.pure _ <| Turned.rebuilt hs rfl id
  param h := Logic.weaken _ (h _) fun _ _ hp => .rebuilt hp rfl id
  closure h := Logic.weaken _ (h _) fun _ _ hc => .rebuilt hc rfl id
  clause h := Logic.weaken _ (h _) fun _ _ hc => .rebuilt hc rfl id
  method h := Logic.weaken _ (h _) fun _ _ hm => .rebuilt hm rfl id
  cls {_ c _} _ := by
    intro c' hc'
    simp only [scriptApis] at hc'
    split at hc'
    · obtain ⟨apis, -, hc'⟩ := bind_eq_ok.1 hc'
      cases hc'
      exact Carried.one rfl fun _ => erasedClass_throughout apis
    · cases hc'
      exact Carried.one rfl fun _ => id
  iface h := Logic.weaken _ (h _) fun _ _ hi => .rebuilt hi rfl id

/-! ## Access -/

/-- Places in a class are met in a class only. -/
def InClass (cls : Option String) (spot : Spot) : Prop := spot.inClass = true → cls.isSome = true

/-- Only a class leads into a class. -/
theorem Spot.inClass_of_enter {b : Spot} {p : Part} (hp : ∀ c, p ≠ .cls c) (h : (b.enter p).inClass = true) :
    b.inClass = true := by
  cases p with
  | cls c => exact absurd rfl (hp c)
  | _ => cases b <;> simp_all [Spot.enter, Spot.inClass]

theorem InClass.within {cls : Option String} {b : Spot} {p : Part} (hp : ∀ c, p ≠ .cls c)
    (h : InClass cls b) : InClass cls (b.enter p) := by
  intro hin
  exact h (Spot.inClass_of_enter hp hin)

theorem bucketed_of_not_thisMember {e : Expr} (h : thisMember? e = none) : (Part.expr e).Bucketed := by
  cases e with
  | property p o n b =>
    cases n with
    | ident m => intro ho; simp [thisMember?, ho] at h
    | dynamic e => trivial
  | methodCall p o n as b =>
    cases n with
    | ident m => intro ho; simp [thisMember?, ho] at h
    | dynamic e => trivial
  | _ => trivial

/-- The change that the pass for members of `$this` makes. -/
abbrev Bucketing : Change (Option String) :=
  Carried InClass (Throughout markedShape) (Throughout bucketedShape)

theorem withBucket_throughout {b : Spot} {e : Expr} (v : Visibility) (h : markedShape.holds b (.expr e))
    (hcs : ∀ c ∈ (Part.expr e).children, Throughout bucketedShape b c) (he : (thisMember? e).isSome = true) :
    Throughout bucketedShape b (.expr (withBucket v e)) := by
  cases e with
  | property p o n _ =>
    exact throughout_expr.2 ⟨⟨⟨⟨trivial, fun _ => trivial⟩, fun _ => trivial⟩, fun _ => by
      cases n <;> simp [withBucket, Part.Bucketed]⟩, hcs⟩
  | methodCall p o n as _ =>
    exact throughout_expr.2 ⟨⟨⟨⟨trivial, fun _ => trivial⟩, fun _ => trivial⟩, fun _ => by
      cases n <;> simp [withBucket, Part.Bucketed]⟩, hcs⟩
  | _ => cases he

theorem isSome_thisMember?_bare (e : Expr) : (thisMember? e.bare).isSome = (thisMember? e).isSome := by
  cases e with
  | property p o n b =>
    simp only [Expr.bare, thisMember?, Expr.isThis_stub]
    cases o.isThis <;> rfl
  | methodCall p o n as b =>
    simp only [Expr.bare, thisMember?, Expr.isThis_stub]
    cases o.isThis <;> rfl
  | _ => rfl

theorem withBucket_stub (v : Visibility) (e : Expr) : (withBucket v e).stub = e.stub := by
  cases e <;> rfl

theorem access_expr_run (e : Expr) (act : ReaderT (Option String) Registry.Query Expr)
    (cls : Option String) : (access.expr e act).run cls =
      match thisMember? e, cls with
      | some n, some c => do
        let bucket ← bucketOf c e.pos n
        return withBucket bucket (← act.run cls)
      | _, _ => act.run cls := by
  simp only [access, ReaderT.run_bind]
  cases thisMember? e <;> cases cls <;> rfl

theorem bucketOf_entries (cls : String) (pos : Position) (n : MemberName) (r : Registry) :
    ((bucketOf cls pos n).run.run r).2.entries = r.entries := by
  cases n with
  | dynamic => rfl
  | ident n => exact Registry.visibility_entries cls n r

/-- Members of `$this` are in a bucket behind the pass. -/
theorem access_sound : Sound (.reading (Option String) (.answered Diagnostic Unit Registry.entries)) access
    Bucketing fun k e e' k' => Rebuilt Bucketing k (.expr e) (.expr e') k' where
  below _ h := h
  array hvs := Logic.map _ (VisitsItem.mapM hvs _) fun _ _ h => .array h
  store hv := hv.inOrder _
  expr {k e act} h := by
    rw [Logic.reading_gives, access_expr_run]
    split
    · next n c hn =>
      refine Logic.bind _ (P := fun _ _ => True) (fun r => ⟨bucketOf_entries c e.pos n r, fun _ _ => trivial⟩)
        fun v _ _ => Logic.bind _ (Logic.reading_gives.1 (h _)) fun e' _ he' => Logic.pure _ ?_
      refine Carried.edited he' (congrArg Part.expr (withBucket_stub v e')) (.within nofun) ?_
      intro b _ hold hcs
      rw [markedShape.enter_expr] at hcs
      refine withBucket_throughout v hold hcs ?_
      rw [← isSome_thisMember?_bare, Part.expr.inj he'.bare_carried, isSome_thisMember?_bare, hn]
      rfl
    · next hnone =>
      refine Logic.weaken _ (Logic.reading_gives.1 (h _)) fun e' _ he' =>
        Carried.rebuilt he' rfl (.within nofun) fun hb hold => ⟨hold, fun hclass => ?_⟩
      refine bucketed_of_not_thisMember (Option.eq_none_iff_forall_ne_some.2 fun n hn => ?_)
      obtain ⟨c, rfl⟩ := Option.isSome_iff_exists.1 (hb hclass)
      exact hnone n c hn rfl
  stmt h := Logic.bind _ (h _) fun _ _ hs => Logic.pure _ <|
    Carried.rebuilt hs rfl (.within nofun) fun _ hold => ⟨hold, fun _ => trivial⟩
  param h := Logic.weaken _ (h _) fun _ _ hp =>
    .rebuilt hp rfl (.within nofun) fun _ hold => ⟨hold, fun _ => trivial⟩
  closure h := Logic.weaken _ (h _) fun _ _ hc =>
    .rebuilt hc rfl (.within nofun) fun _ hold => ⟨hold, fun _ => trivial⟩
  clause h := Logic.weaken _ (h _) fun _ _ hc =>
    .rebuilt hc rfl (.within nofun) fun _ hold => ⟨hold, fun _ => trivial⟩
  method h := Logic.weaken _ (h _) fun _ _ hm =>
    .rebuilt hm rfl (.within nofun) fun _ hold => ⟨hold, fun _ => trivial⟩
  cls {k c act} h := by
    rw [Logic.reading_gives]
    show (Logic.answered Diagnostic Unit Registry.entries).Gives () (act.run (some c.qualifiedName)) _
    refine Logic.weaken _ (Logic.reading_gives.1 (h _)) fun _ _ hc =>
      Carried.entered hc rfl (fun _ _ => rfl) fun _ hold hcs => ?_
    exact throughout_iff.2 ⟨⟨hold, fun _ => trivial⟩, hcs⟩
  iface h := Logic.weaken _ (h _) fun _ _ hi =>
    .rebuilt hi rfl (.within nofun) fun _ hold => ⟨hold, fun _ => trivial⟩

end Annotate

/-- What the pass gives holds of a marked file, and the registry keeps what the pass keeps of it. -/
theorem SourceFile.markAccess_gives {τ : Type} {view : Registry → τ} {f : SourceFile} {Q : SourceFile → Prop}
    (h : (Logic.reading (Option String) (.answered Diagnostic Unit view)).Gives none
      (f.through Annotate.access) fun f' _ => Q f') (r : Registry) :
    view (f.markAccess.run.run r).2 = view r ∧ ∀ f', (f.markAccess.run.run r).1 = .ok f' → Q f' := by
  have hadapt (q : Registry.Query SourceFile) : (ExceptT.adapt (·.inFile f.path) q).run.run r =
      ((q.run.run r).1.mapError (·.inFile f.path), (q.run.run r).2) := rfl
  obtain ⟨hentries, hf⟩ := h r
  rw [markAccess, hadapt]
  exact ⟨hentries, fun f' hok => hf f' (mapError_eq_ok.1 hok)⟩

end ClassScript
