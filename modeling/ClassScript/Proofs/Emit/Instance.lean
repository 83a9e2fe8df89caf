import ClassScript.Proofs.Emit.Safe
import ClassScript.Proofs.Emit.Keeps
import ClassScript.Proofs.Registry.Lineage
import ClassScript.Proofs.Script.Made
import ClassScript.Text.Dictionary
/-!
# Instances

An instance is made level by level, from the oldest class to the most derived one. The code of a level
assigns the members of its class to places of the instance; the private ones have places of their own
for each level, all others are shared by the levels. A place holds what was assigned to it last.

An access to a member of `$this` reads a place that is fixed where the access stands: that of the
nearest declaration at or above its class. So it reads what the most derived of the classes wrote that
declare the member *with the same visibility* (`access_reads`). This is the most derived declaration
that is not private only if the visibility is not changed on the way down (`widened_override_missed`).
-/

namespace ClassScript

/-! ## Members -/

/-- A member that instances have, with its visibility: constructors are kept apart. -/
def Member.ofInstance? : Member → Option (String × Option Visibility)
  | .property d => some (d.name, d.resolved)
  | .method d => if d.isConstructor then none else some (d.name, d.resolved)
  | .const _ | .traitUse _ => none

/-- The class declares a member of instances with the visibility. -/
def Class.DeclaresAs (c : Class) (member : String) (v : Visibility) : Prop :=
  ∃ m ∈ c.members, m.ofInstance? = some (member, some v)

/-- The class declares a member of instances that is not private. -/
def Class.Offers (c : Class) (member : String) : Prop := ∃ v ≠ .priv, c.DeclaresAs member v

namespace Registry

/-- What an entry has with one more member, it had before or is that member. -/
theorem own?_withMember {e e' : ClassEntry} {m : Member} (h : ClassEntry.withMember e m = .ok e')
    {member : String} {v : Visibility} (hown : ClassEntry.own? e' member = some v)
    (hmember : ¬sameWord member constructorName) :
    ClassEntry.own? e member = some v ∨ m.ofInstance? = some (member, some v) := by
  cases m with
  | property d =>
    obtain ⟨u, hu, ⟨⟩⟩ := bind_eq_ok.1 h
    rw [ClassEntry.own?, lookup_put] at hown
    split at hown
    · next hname => exact .inr (by simpa [Member.ofInstance?, hname, visibilityOf_eq_ok.1 hu] using hown)
    · exact .inl hown
  | method d =>
    obtain ⟨u, hu, ⟨⟩⟩ := bind_eq_ok.1 h
    rw [ClassEntry.own?, lookup_put] at hown
    cases hprop : e.properties.lookup member with
    | some w => exact .inl (by simpa [ClassEntry.own?, hprop] using hown)
    | none =>
      rw [hprop, Option.none_or] at hown
      split at hown
      · next hname =>
        subst hname
        exact .inr (by simpa [Member.ofInstance?, Method.isConstructor, hmember,
          visibilityOf_eq_ok.1 hu] using hown)
      · exact .inl (by simpa [ClassEntry.own?, hprop] using hown)
  | const d =>
    obtain ⟨_, _, ⟨⟩⟩ := bind_eq_ok.1 h
    exact .inl hown
  | traitUse _ =>
    cases h
    exact .inl hown

/-- What is entered for a class, it declares. -/
theorem declaresAs_of_own? {c : Class} {isInternal : Bool} {e : ClassEntry}
    (h : classEntry c isInternal = .ok e) {member : String} {v : Visibility}
    (hown : ClassEntry.own? e member = some v) (hmember : ¬sameWord member constructorName) :
    c.DeclaresAs member v := by
  have hfold : ∀ (ms : List Member) (e₀ : ClassEntry), ms.foldlM ClassEntry.withMember e₀ = .ok e →
      ClassEntry.own? e₀ member = some v ∨ ∃ m ∈ ms, m.ofInstance? = some (member, some v) := by
    intro ms
    induction ms with
    | nil =>
      rintro e₀ ⟨⟩
      exact .inl hown
    | cons m ms ih =>
      intro e₀ h
      rw [List.foldlM_cons] at h
      obtain ⟨e₁, h₁, h⟩ := bind_eq_ok.1 h
      rcases ih e₁ h with hown | ⟨m', hm', hv⟩
      · exact (own?_withMember h₁ hown hmember).imp_right fun hv => ⟨m, List.mem_cons_self, hv⟩
      · exact .inr ⟨m', List.mem_cons_of_mem m hm', hv⟩
  exact (hfold c.members _ h).resolve_left nofun

end Registry

namespace Emit

open Script Registry

/-! ## Places -/

/-- A place of an instance. Private places belong to a level, the others to all levels. -/
structure Place where
  visibility : Visibility
  level : Option Nat
  member : String
deriving DecidableEq

/-- The place of a member in the code of a level. -/
def place (level : Nat) (v : Visibility) (member : String) : Place :=
  ⟨v, if v = .priv then some level else none, member⟩

theorem place_inj {level : Nat} {v v' : Visibility} {member member' : String} :
    place level v member = place level v' member' ↔ v = v' ∧ member = member' := by
  constructor
  · intro h
    injection h with hv _ hm
    exact ⟨hv, hm⟩
  · rintro ⟨rfl, rfl⟩
    rfl

/-- All levels share the place of a member that is not private. -/
theorem place_shared {v : Visibility} (hv : v ≠ .priv) (level level' : Nat) (member : String) :
    place level v member = place level' v member := by simp [place, hv]

/-- The visibility whose members an object of the emitted code holds. -/
def visibilityOf? (object : String) : Option Visibility :=
  [.pub, .prot, .priv].find? fun v => bucket v == object

theorem visibilityOf?_bucket (v : Visibility) : visibilityOf? (bucket v) = some v := by
  cases v <;> rfl

/-- The place that an access leads to in the code of a level. -/
def placeOf? (level : Nat) : Node → Option Place
  | .property (.identifier object) (.identifier key)
  | .property (.identifier object) (.string key) => (visibilityOf? object).map (place level · key)
  | _ => none

/-- The access to a member of a visibility. -/
def accessTo (v : Visibility) (member : String) : Node :=
  .property (.identifier (bucket v)) (keyNode member)

theorem placeOf?_accessTo (level : Nat) (v : Visibility) (member : String) :
    placeOf? level (accessTo v member) = some (place level v member) := by
  unfold accessTo keyNode
  split <;> simp [placeOf?, visibilityOf?_bucket]

/-! ## Assignments -/

/-- A value as it is emitted, with the level that assigns it. -/
structure Written where
  level : Nat
  value : Node

/-- What a statement of a level assigns. -/
def write? (level : Nat) : Node → Option (Place × Written)
  | .statement (.assign target value) => (placeOf? level target).map (·, ⟨level, value⟩)
  | _ => none

/-- The value that the code of a level leaves in a place. -/
def lastWrite? (level : Nat) (code : List Node) (p : Place) : Option Written :=
  (code.filterMap (write? level)).reverse.lookup p

/-- Some statement assigns to the place. -/
def WritesTo (level : Nat) (code : List Node) (p : Place) : Prop :=
  ∃ w, (p, w) ∈ code.filterMap (write? level)

theorem writesTo_iff {level : Nat} {code : List Node} {p : Place} :
    WritesTo level code p ↔ ∃ stmt ∈ code, ∃ w, write? level stmt = some (p, w) := by
  simp only [WritesTo, List.mem_filterMap]
  exact ⟨fun ⟨w, stmt, h, hw⟩ => ⟨stmt, h, w, hw⟩, fun ⟨stmt, h, w, hw⟩ => ⟨w, stmt, h, hw⟩⟩

/-- A statement writes for its own level. -/
theorem write?_level {level : Nat} {stmt : Node} {p : Place} {w : Written}
    (h : write? level stmt = some (p, w)) : w.level = level := by
  unfold write? at h
  split at h
  · obtain ⟨_, _, ⟨⟩⟩ := Option.map_eq_some_iff.1 h
    rfl
  · cases h

theorem lastWrite?_level {level : Nat} {code : List Node} {p : Place} {w : Written}
    (h : lastWrite? level code p = some w) : w.level = level := by
  have hmem := List.mem_reverse.1 (mem_of_lookup h)
  obtain ⟨stmt, -, hw⟩ := List.mem_filterMap.1 hmem
  exact write?_level hw

theorem isSome_lastWrite? {level : Nat} {code : List Node} {p : Place} :
    (lastWrite? level code p).isSome ↔ WritesTo level code p := by
  simp [lastWrite?, WritesTo, List.lookup_isSome_iff]

/-! ## Instances -/

/-- All that was assigned to the places of an instance, the latest first. -/
abbrev Instance := List (Place × Written)

/-- Runs a statement in the code of a level. -/
def step (level : Nat) (o : Instance) (stmt : Node) : Instance := (write? level stmt).toList ++ o

/-- What an access in the code of a level reads. -/
def Instance.read (o : Instance) (level : Nat) (access : Node) : Option Written :=
  (placeOf? level access).bind fun p => o.lookup p

theorem foldl_step (level : Nat) (code : List Node) (o : Instance) :
    code.foldl (step level) o = (code.filterMap (write? level)).reverse ++ o := by
  induction code generalizing o with
  | nil => rfl
  | cons stmt code ih =>
    rw [List.foldl_cons, ih, step]
    cases h : write? level stmt <;> simp [h]

/-- Running the code of a level changes what it writes and nothing else. -/
theorem lookup_foldl_step (level : Nat) (code : List Node) (o : Instance) (p : Place) :
    (code.foldl (step level) o).lookup p = (lastWrite? level code p).or (o.lookup p) := by
  rw [foldl_step, List.lookup_append, lastWrite?]

/-! ## Emitted levels -/

section Emission

variable (ctx : Context) (level : Nat)

theorem writesTo_append {code code' : List Node} {p : Place} :
    WritesTo level (code ++ code') p ↔ WritesTo level code p ∨ WritesTo level code' p := by
  simp only [WritesTo, List.filterMap_append, List.mem_append, exists_or]

/-- Code that is made item by item writes what the items make it write. -/
theorem writesTo_flatten_of_forall₂ {α : Type} {l : List α} {codes : List (List Node)} {p : Place}
    {P : α → Prop} (h : List.Forall₂ (fun a code => WritesTo level code p ↔ P a) l codes) :
    WritesTo level codes.flatten p ↔ ∃ a ∈ l, P a := by
  induction h with
  | nil => simp [WritesTo]
  | cons hcode _ ih => rw [List.flatten_cons, writesTo_append, ih, hcode, List.exists_mem_cons_iff]

variable {level} in
theorem not_writesTo {code : List Node} {p : Place} (h : ∀ stmt ∈ code, write? level stmt = none) :
    ¬WritesTo level code p := by
  rintro ⟨w, hw⟩
  obtain ⟨stmt, hmem, hw⟩ := List.mem_filterMap.1 hw
  simp [h stmt hmem] at hw

/-- The assignment of a member writes to its place. -/
theorem write?_memberStatement {v : Visibility} {name : String} {value n : Node}
    (h : memberStatement v name value = .ok n) :
    write? level n = some (place level v name, ⟨level, value⟩) := by
  obtain ⟨o, ho, h⟩ := bind_eq_ok.1 h
  obtain ⟨target, htarget, h⟩ := bind_eq_ok.1 h
  obtain ⟨a, ha, h⟩ := bind_eq_ok.1 h
  obtain ⟨-, rfl⟩ := ident_eq_ok.1 ho
  obtain ⟨-, rfl⟩ := member_eq_ok.1 htarget
  obtain ⟨-, -, rfl⟩ := assign_eq_ok.1 ha
  obtain ⟨-, rfl⟩ := statement_eq_ok.1 h
  exact congrArg (Option.map _) (placeOf?_accessTo level v name)

theorem yields_memberStatement (v : Visibility) (name : String) (value : Node) :
    Yields (memberStatement v name value) fun n => ∀ p, WritesTo level [n] p ↔ p = place level v name := by
  refine .built fun n h p => ?_
  simp only [writesTo_iff, List.mem_singleton, exists_eq_left, write?_memberStatement level h,
    Option.some.injEq, Prod.mk.injEq, exists_and_left, exists_eq', and_true]
  exact eq_comm

theorem yields_resolvedVisibility (resolved : Option Visibility) (what : String) :
    Yields (resolvedVisibility resolved what) fun v => resolved = some v := by
  cases resolved with
  | some v => exact .pure rfl
  | none => exact .fail _

theorem yields_method (cls : String) (m : Method) : Yields (emitMethod ctx cls m) fun n =>
    ∃ v, m.resolved = some v ∧ ∀ p, WritesTo level [n] p ↔ p = place level v m.name := by
  obtain heq | heq | ⟨body, -, heq⟩ := emitMethod_cases ctx cls m <;> rw [heq]
  · exact .failAt _ _
  · exact .failAt _ _
  · exact (yields_resolvedVisibility _ _).bind fun v hv => (Yields.any _).bind fun value _ =>
      (yields_memberStatement level v m.name value).imp fun _ h => ⟨v, hv, h⟩

theorem yields_property (cls : String) (d : Property) : Yields (emitProperty ctx cls d) fun n =>
    ∃ v, d.resolved = some v ∧ ∀ p, WritesTo level [n] p ↔ p = place level v d.name := by
  unfold emitProperty
  refine (yields_resolvedVisibility d.resolved _).bind fun v hv => ?_
  have hrest (value : Node) := (yields_memberStatement level v d.name value).imp fun _ h =>
    (⟨v, hv, h⟩ : ∃ v, d.resolved = some v ∧ ∀ p, WritesTo level [_] p ↔ p = place level v d.name)
  cases d.default with
  | some e => exact (Yields.any _).bind fun value _ => hrest value
  | none => exact hrest null

/-- The code of a member writes to the place of the member, if instances have it. -/
theorem yields_instanceMember (c : Class) (m : Member) : Yields (emitInstanceMember ctx c m) fun code =>
    ∀ p, WritesTo level code p ↔ ∃ name v, m.ofInstance? = some (name, some v) ∧ p = place level v name := by
  cases m with
  | property d =>
    refine (yields_property ctx level _ d).bind fun n ⟨v, hv, hn⟩ => .pure fun p => ?_
    simp [hn, Member.ofInstance?, hv]
  | method d =>
    simp only [emitInstanceMember, Member.ofInstance?]
    cases d.isConstructor with
    | true => exact .pure fun p => by simp [WritesTo]
    | false =>
      refine (yields_method ctx level _ d).bind fun n ⟨v, hv, hn⟩ => .pure fun p => ?_
      simp [hn, hv]
  | const d => exact .pure fun p => by simp [WritesTo, Member.ofInstance?]
  | traitUse _ => exact .failAt _ _

theorem write?_instanceStart {code : List Node} (h : instanceStart = .ok code) :
    ∀ stmt ∈ code, write? level stmt = none := by
  cases h
  simp only [List.forall_mem_cons]
  exact ⟨rfl, rfl, rfl, rfl, rfl, nofun⟩

theorem write?_instanceEnd {n : Node} (h : instanceEnd = .ok n) : write? level n = none := by
  cases h
  rfl

/-- The code of a level writes to the places of the members that the class declares, and to that of the
class check. -/
theorem yields_instance (c : Class) : Yields (emitInstance ctx c) fun code => ∀ p,
    WritesTo level code p ↔ p = place level .pub instanceCheckName ∨
      ∃ name v, c.DeclaresAs name v ∧ p = place level v name := by
  refine (Keeps.built fun start hstart => write?_instanceStart level hstart).bind fun start hstart => ?_
  refine (Keeps.mapM fun m _ => yields_instanceMember ctx level c m).bind fun members hmembers => ?_
  refine (Yields.any _).bind fun _ _ => (yields_memberStatement level _ _ _).bind fun hook hhook => ?_
  refine (Yields.any _).bind fun _ _ => ?_
  refine (Keeps.built fun construct h => (declare_eq_ok.1 h).2.2).bind fun construct hconstruct => ?_
  refine (Keeps.built fun ending h => write?_instanceEnd level h).bind fun ending hending => ?_
  refine .pure fun p => ?_
  have hstart : ¬WritesTo level start p := not_writesTo hstart
  have hends : ¬WritesTo level [construct, ending] p := not_writesTo <| by
    rw [List.forall_mem_cons, List.forall_mem_singleton, hconstruct]
    exact ⟨rfl, hending⟩
  have hmembers : WritesTo level members.flatten p ↔
      ∃ name v, c.DeclaresAs name v ∧ p = place level v name := by
    rw [writesTo_flatten_of_forall₂ level (hmembers.imp fun _ _ h => h p)]
    exact ⟨fun ⟨m, hm, name, v, h, hp⟩ => ⟨name, v, ⟨m, hm, h⟩, hp⟩,
      fun ⟨name, v, ⟨m, hm, h⟩, hp⟩ => ⟨m, hm, name, v, h, hp⟩⟩
  have happend : start ++ members.flatten ++ [hook, construct, ending] =
      start ++ (members.flatten ++ ([hook] ++ [construct, ending])) := by simp
  rw [happend, writesTo_append, writesTo_append, writesTo_append, hmembers, hhook]
  simp only [hstart, hends, false_or, or_false]
  exact or_comm

end Emission

/-! ## Classes level by level -/

/-- A class of the ancestry of an instance, with its entry and the code that adds its members. -/
structure Level where
  cls : Class
  entry : ClassEntry
  code : List Node
  entered : ∃ isInternal, classEntry cls isInternal = .ok entry
  emitted : ∃ ctx frame frame', (emitInstance ctx cls).run frame = .ok (code, frame')

namespace Level

/-- Of the classes with a property, the level is that of the most derived one. -/
def MostDerived (levels : List Level) (P : Class → Prop) (i : Nat) : Prop :=
  (∃ l, levels[i]? = some l ∧ P l.cls) ∧ ∀ j l, levels[j]? = some l → P l.cls → j ≤ i

theorem writesTo_iff (l : Level) (level : Nat) (p : Place) :
    WritesTo level l.code p ↔ p = place level .pub instanceCheckName ∨
      ∃ name v, l.cls.DeclaresAs name v ∧ p = place level v name := by
  obtain ⟨ctx, frame, frame', h⟩ := l.emitted
  exact (yields_instance ctx level l.cls frame l.code frame' trivial h).2 p

/-- A level writes to the place of a member if its class declares the member so. -/
theorem writesTo_place (l : Level) {level i : Nat} {v : Visibility} (hv : v ≠ .priv) {member : String}
    (hmember : member ≠ instanceCheckName) :
    WritesTo level l.code (place i v member) ↔ l.cls.DeclaresAs member v := by
  rw [place_shared hv i level, l.writesTo_iff]
  simp only [place_inj, hmember, and_false, false_or]
  exact ⟨fun ⟨_, _, h, hv, hm⟩ => hv ▸ hm ▸ h, fun h => ⟨member, v, h, rfl, rfl⟩⟩

/-- The instance that the levels make, the oldest first. -/
def instanceOf (levels : List Level) : Instance :=
  levels.zipIdx.foldl (fun o x => x.1.code.foldl (step x.2) o) []

theorem lookup_instanceOf_concat (levels : List Level) (l : Level) (p : Place) :
    (instanceOf (levels ++ [l])).lookup p =
      (lastWrite? levels.length l.code p).or ((instanceOf levels).lookup p) := by
  rw [instanceOf, List.zipIdx_append, List.foldl_append]
  exact (lookup_foldl_step ..).trans (by rw [Nat.zero_add]; rfl)

/-- A place that some level writes to holds what the last of these levels left there. -/
theorem lookup_instanceOf {levels : List Level} {p : Place} {j : Nat} {l' : Level}
    (hj : levels[j]? = some l') (hwrites : WritesTo j l'.code p) :
    ∃ w l, (instanceOf levels).lookup p = some w ∧ levels[w.level]? = some l ∧
      lastWrite? w.level l.code p = some w ∧
      ∀ k l, levels[k]? = some l → WritesTo k l.code p → k ≤ w.level := by
  induction levels using List.reverseRecOn generalizing j l' with
  | nil => simp at hj
  | append_singleton levels top ih =>
    rw [lookup_instanceOf_concat]
    cases htop : lastWrite? levels.length top.code p with
    | some w =>
      have hlevel := lastWrite?_level htop
      refine ⟨w, top, rfl, by simp [hlevel], hlevel ▸ htop, fun k l hk _ => ?_⟩
      have hlt := (List.getElem?_eq_some_iff.1 hk).1
      rw [List.length_append, List.length_singleton] at hlt
      omega
    | none =>
      have hquiet : ¬WritesTo levels.length top.code p := by
        rw [← isSome_lastWrite?, htop]
        exact nofun
      have holder : ∀ {k l}, (levels ++ [top])[k]? = some l → WritesTo k l.code p → levels[k]? = some l := by
        intro k l hk hw
        obtain ⟨hlt, hget⟩ := List.getElem?_eq_some_iff.1 hk
        by_cases hk' : k < levels.length
        · rwa [List.getElem?_append_left hk'] at hk
        · obtain rfl : k = levels.length := by simp at hlt; omega
          obtain rfl : top = l := by simpa using hk
          exact absurd hw hquiet
      obtain ⟨w, l, hw, hl, hlast, hmax⟩ := ih (holder hj hwrites) hwrites
      have hlt := (List.getElem?_eq_some_iff.1 hl).1
      exact ⟨w, l, hw, by rw [List.getElem?_append_left hlt, hl], hlast,
        fun k l hk hw => hmax k l (holder hk hw) hw⟩

/-- An access in the code of any level reads what the most derived class wrote that declares the member
with the visibility of the access. -/
theorem read_accessTo {levels : List Level} {v : Visibility} (hv : v ≠ .priv) {member : String}
    (hcheck : member ≠ instanceCheckName) {j : Nat} {l : Level} (hj : levels[j]? = some l)
    (hdeclares : l.cls.DeclaresAs member v) (k : Nat) :
    ∃ w source, (instanceOf levels).read k (accessTo v member) = some w ∧ levels[w.level]? = some source ∧
      lastWrite? w.level source.code (place w.level v member) = some w ∧
      MostDerived levels (·.DeclaresAs member v) w.level := by
  obtain ⟨w, source, hw, hsource, hlast, hmax⟩ :=
    lookup_instanceOf hj ((l.writesTo_place hv (i := k) hcheck).2 hdeclares)
  have hsourced : source.cls.DeclaresAs member v :=
    (source.writesTo_place hv hcheck).1 (isSome_lastWrite?.1 (Option.isSome_of_eq_some hlast))
  refine ⟨w, source, ?_, hsource, place_shared hv k w.level member ▸ hlast, ⟨source, hsource, hsourced⟩, ?_⟩
  · rw [Instance.read, placeOf?_accessTo, Option.bind_some, hw]
  · exact fun i l hl hd => hmax i l hl ((l.writesTo_place hv hcheck).2 hd)

/-- The most derived class that offers a member is the most derived one that does so with a given
visibility only if it is one of these. -/
theorem MostDerived.eq_iff {levels : List Level} {v : Visibility} (hv : v ≠ .priv) {member : String}
    {i top : Nat} (hi : MostDerived levels (·.DeclaresAs member v) i)
    (htop : MostDerived levels (·.Offers member) top) :
    i = top ↔ ∃ l, levels[top]? = some l ∧ l.cls.DeclaresAs member v := by
  constructor
  · rintro rfl
    exact hi.1
  · rintro ⟨l, hl, hd⟩
    obtain ⟨l', hl', hd'⟩ := hi.1
    exact le_antisymm (htop.2 i l' hl' ⟨v, hv, hd'⟩) (hi.2 top l hl hd)

end Level

/-- An access to a member of `$this` stands in the bucket of its visibility. -/
theorem emit_this {object : Expr} (hthis : object.isThis = true) (ctx : Context) (pos : Position)
    (name : String) (v : Visibility) (frame : Option Frame) :
    (emitExpr ctx (.property pos object (.ident name) (some v))).run frame =
      .ok (accessTo v name, frame) := by
  have hbucket : ident (bucket v) = .ok (.identifier (bucket v)) := by cases v <;> rfl
  have haccess : Script.member (.identifier (bucket v)) name = .ok (accessTo v name) :=
    member_eq_ok.2 ⟨rfl, rfl⟩
  have hnode : thisMember? object (.ident name) (some v) pos =
      some (do member (← ident (bucket v)) name) := by
    rw [thisMember?, if_pos hthis]
    rfl
  rw [emitExpr_property]
  simp only [hnode, hbucket]
  show (Except.mapError _ ((liftM (Script.member (.identifier (bucket v)) name) : Emission Node).run frame)) = _
  rw [haccess]
  rfl

theorem exists_of_nearest? {entries : List ClassEntry} {member : String} {v : Visibility}
    (h : nearest? entries member = some v) : ∃ e ∈ entries, ClassEntry.own? e member = some v := by
  obtain ⟨e, he, hown⟩ := List.exists_of_findSome?_eq_some h
  exact ⟨e, List.mem_reverse.1 he, hown⟩

/-- The visibility of a member whose nearest declaration at or above a level is not private, is that of
the declaration; an access with it reads what the most derived class wrote that declares the member with
this very visibility. That is the most derived class that offers the member if and only if this one
keeps the visibility. -/
theorem access_reads {r : Registry} {levels : List Level} (hr : r.Remembers)
    (hlineage : r.Lineage (levels.map (·.entry))) {k : Nat} {l : Level} (hk : levels[k]? = some l)
    {member : String} {v : Visibility}
    (hv : nearest? ((levels.take (k + 1)).map (·.entry)) member = some v) (hpriv : v ≠ .priv)
    (hconstructor : ¬sameWord member constructorName) (hcheck : member ≠ instanceCheckName) :
    ((visibility l.entry.name member).run.run r).1 = .ok v ∧
      ∀ object, object.isThis = true → ∀ ctx pos frame, ∃ access w source,
        (emitExpr ctx (.property pos object (.ident member) (some v))).run frame = .ok (access, frame) ∧
        (Level.instanceOf levels).read k access = some w ∧
        levels[w.level]? = some source ∧
        lastWrite? w.level source.code (place w.level v member) = some w ∧
        Level.MostDerived levels (·.DeclaresAs member v) w.level ∧
        ∀ top, Level.MostDerived levels (·.Offers member) top →
          (w.level = top ↔ ∃ l, levels[top]? = some l ∧ l.cls.DeclaresAs member v) := by
  have htake : levels.take (k + 1) = levels.take k ++ [l] := by
    rw [List.take_add_one, hk, Option.toList_some]
  constructor
  · rw [← List.take_append_drop (k + 1) levels, List.map_append, htake, List.map_append] at hlineage
    rw [htake, List.map_append] at hv
    exact hlineage.of_append.answer hr hv hpriv
  · intro object hthis ctx pos frame
    -- The nearest declaration is one that writes to the place, so the place is not empty.
    obtain ⟨e, he, hown⟩ := exists_of_nearest? hv
    obtain ⟨l', hl', rfl⟩ := List.mem_map.1 he
    obtain ⟨j, hj⟩ := List.mem_iff_getElem?.1 (List.mem_of_mem_take hl')
    obtain ⟨isInternal, hentry⟩ := l'.entered
    obtain ⟨w, source, hw, hsource, hlast, htop⟩ :=
      Level.read_accessTo hpriv hcheck hj (declaresAs_of_own? hentry hown hconstructor) k
    exact ⟨accessTo v member, w, source, emit_this hthis ctx pos member v frame, hw, hsource, hlast, htop,
      fun _ hoffers => htop.eq_iff hpriv hoffers⟩

/-! ## Changed visibility -/

def fieldMember (v : Visibility) (value : Nat) : Member := .property
  { name := "x", default := some (.int .unknown value), modifiers := {}, resolved := some v,
    pos := .unknown }

/-- A class with one property. -/
def fieldClass (name : String) (parent : Option Name) (v : Visibility) (value : Nat) : Class where
  name
  parent
  interfaces := []
  members := [fieldMember v value]
  isAbstract := false
  isFinal := false
  pos := .unknown
  qualified := none
  scriptApis := none

def fieldEntry (name : String) (parent : Option Name) (v : Visibility) : ClassEntry where
  name
  parent := parent.map Name.joined
  interfaces := []
  properties := [("x", v)]
  isInternal := false

theorem fieldClass_declaresAs {name : String} {parent : Option Name} {v v' : Visibility} {value : Nat} :
    (fieldClass name parent v value).DeclaresAs "x" v' ↔ v = v' := by
  simp [Class.DeclaresAs, fieldClass, fieldMember, Member.ofInstance?]

theorem exists_fieldLevel (name : String) (parent : Option Name) (v : Visibility) (value : Nat) :
    ∃ l : Level, l.cls = fieldClass name parent v value ∧ l.entry = fieldEntry name parent v := by
  let ctx : Context := ⟨{ classes := [fieldEntry name parent v] }, none⟩
  have hinterfaces : ctx.registry.declaredInterfaces name = .ok [] := by
    simp [ctx, declaredInterfaces, requireClass, class?, fieldEntry, collect]
  obtain ⟨params, body, hhook⟩ : ∃ params body, instanceHook ctx name = .ok (.function params body) := by
    rw [instanceHook, hinterfaces]
    exact ⟨_, _, rfl⟩
  have hvalue : emitExpr ctx (.int .unknown value) = pure (.int value) := rfl
  obtain ⟨stmt, hmember⟩ : ∃ stmt, emitInstanceMember ctx (fieldClass name parent v value)
      (fieldMember v value) = pure [stmt] := by
    rw [fieldMember, emitInstanceMember, emitProperty]
    simp only [hvalue]
    cases v <;> exact ⟨_, rfl⟩
  obtain ⟨code, hcode⟩ : ∃ code, (emitInstance ctx (fieldClass name parent v value)).run none =
      .ok (code, none) := by
    rw [emitInstance, show (fieldClass name parent v value).qualifiedName = name from rfl, hhook,
      show (fieldClass name parent v value).members = [fieldMember v value] from rfl, List.mapM_cons,
      hmember]
    exact ⟨_, rfl⟩
  exact ⟨⟨_, _, code, ⟨false, rfl⟩, ⟨_, none, none, hcode⟩⟩, rfl, rfl⟩

/-- A class and one that extends it, both with the property. -/
def fieldRegistry (v v' : Visibility) : Registry where
  classes := [fieldEntry "A" none v, fieldEntry "B" (some (.global "A")) v']

theorem exists_fieldLevels (v v' : Visibility) : ∃ older newer : Level,
    older.cls = fieldClass "A" none v 1 ∧ newer.cls = fieldClass "B" (some (.global "A")) v' 2 ∧
      [older, newer].map (·.entry) = (fieldRegistry v v').classes := by
  obtain ⟨older, hcls, hentry⟩ := exists_fieldLevel "A" none v 1
  obtain ⟨newer, hcls', hentry'⟩ := exists_fieldLevel "B" (some (.global "A")) v' 2
  exact ⟨older, newer, hcls, hcls', by simp [hentry, hentry', fieldRegistry]⟩

theorem lineage_fieldRegistry (v v' : Visibility) :
    (fieldRegistry v v').Lineage (fieldRegistry v v').classes where
  known := by
    simp only [fieldRegistry, List.forall_mem_cons]
    exact ⟨rfl, rfl, nofun⟩
  root := by
    rintro e ⟨⟩
    rfl
  linked := List.isChain_pair.2 rfl

theorem remembers_fieldRegistry (v v' : Visibility) : (fieldRegistry v v').Remembers :=
  fun _ _ _ h => nomatch h

/-- An override that keeps the visibility is what the older class reads. -/
theorem kept_override_read : ∃ older newer : Level,
    older.cls = fieldClass "A" none .prot 1 ∧
    newer.cls = fieldClass "B" (some (.global "A")) .prot 2 ∧
    (fieldRegistry .prot .prot).Remembers ∧
    (fieldRegistry .prot .prot).Lineage ([older, newer].map (·.entry)) ∧
    nearest? (([older, newer].take 1).map (·.entry)) "x" = some .prot ∧
    ((visibility older.entry.name "x").run.run (fieldRegistry .prot .prot)).1 = .ok .prot ∧
    ∃ access w, (emitExpr ⟨fieldRegistry .prot .prot, none⟩ (.property .unknown (.var .unknown "this")
      (.ident "x") (some .prot))).run none = .ok (access, none) ∧
      (Level.instanceOf [older, newer]).read 0 access = some w ∧ w.level = 1 := by
  obtain ⟨older, newer, holder, hnewer, hentries⟩ := exists_fieldLevels .prot .prot
  have hlineage := lineage_fieldRegistry .prot .prot
  have hnearest : nearest? (([older, newer].take 1).map (·.entry)) "x" = some .prot := by
    rw [List.map_take, hentries]
    rfl
  rw [← hentries] at hlineage
  obtain ⟨hquery, hread⟩ := access_reads (k := 0) (remembers_fieldRegistry _ _) hlineage rfl hnearest
    (by decide) (by decide) (by decide)
  obtain ⟨access, w, source, haccess, hw, hsource, -, hderived, -⟩ :=
    hread (.var .unknown "this") rfl ⟨fieldRegistry .prot .prot, none⟩ .unknown none
  have hle := hderived.2 1 newer rfl (hnewer ▸ fieldClass_declaresAs.2 rfl)
  have hlt := (List.getElem?_eq_some_iff.1 hsource).1
  rw [List.length_cons, List.length_singleton] at hlt
  exact ⟨older, newer, holder, hnewer, remembers_fieldRegistry _ _, hlineage, hnearest, hquery, access, w,
    haccess, hw, by omega⟩

/-- An override that widens the visibility is not what the older class reads. -/
theorem widened_override_missed : ∃ older newer : Level,
    older.cls = fieldClass "A" none .prot 1 ∧
    newer.cls = fieldClass "B" (some (.global "A")) .pub 2 ∧
    (fieldRegistry .prot .pub).Remembers ∧
    (fieldRegistry .prot .pub).Lineage ([older, newer].map (·.entry)) ∧
    nearest? (([older, newer].take 1).map (·.entry)) "x" = some .prot ∧
    ((visibility older.entry.name "x").run.run (fieldRegistry .prot .pub)).1 = .ok .prot ∧
    Level.MostDerived [older, newer] (·.Offers "x") 1 ∧
    ∃ access w, (emitExpr ⟨fieldRegistry .prot .pub, none⟩ (.property .unknown (.var .unknown "this")
      (.ident "x") (some .prot))).run none = .ok (access, none) ∧
      (Level.instanceOf [older, newer]).read 0 access = some w ∧ w.level = 0 := by
  obtain ⟨older, newer, holder, hnewer, hentries⟩ := exists_fieldLevels .prot .pub
  have hlineage := lineage_fieldRegistry .prot .pub
  have hnearest : nearest? (([older, newer].take 1).map (·.entry)) "x" = some .prot := by
    rw [List.map_take, hentries]
    rfl
  rw [← hentries] at hlineage
  have hfirst : (fieldRegistry .prot .pub).Lineage ([] ++ [older.entry]) :=
    Lineage.of_append (show Lineage _ ([older.entry] ++ [newer.entry]) from hlineage)
  have hquery := hfirst.answer (remembers_fieldRegistry _ _) hnearest (by decide)
  have hdeclares : older.cls.DeclaresAs "x" .prot := holder ▸ fieldClass_declaresAs.2 rfl
  have hfound : [older, newer][0]? = some older := rfl
  obtain ⟨w, source, hw, hsource, -, ⟨l, hl, hd⟩, -⟩ :=
    Level.read_accessTo (by decide) (by decide) hfound hdeclares 0
  have hmost : Level.MostDerived [older, newer] (·.Offers "x") 1 := by
    refine ⟨⟨newer, rfl, .pub, by decide, hnewer ▸ fieldClass_declaresAs.2 rfl⟩, fun j l hj _ => ?_⟩
    have hlt := (List.getElem?_eq_some_iff.1 hj).1
    rw [List.length_cons, List.length_singleton] at hlt
    omega
  have hlevel : w.level = 0 := by
    by_contra hne
    have hlt := (List.getElem?_eq_some_iff.1 hl).1
    rw [List.length_cons, List.length_singleton] at hlt
    obtain rfl : newer = l := by simpa [show w.level = 1 by omega] using hl
    rw [hnewer, fieldClass_declaresAs] at hd
    cases hd
  exact ⟨older, newer, holder, hnewer, remembers_fieldRegistry _ _, hlineage, hnearest, hquery, hmost, _, w,
    emit_this rfl _ _ _ _ _, hw, hlevel⟩

end Emit

end ClassScript
