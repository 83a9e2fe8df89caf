import ClassScript.Proofs.Registry.Lineage
/-!
# What is remembered does not show

A registry answers a question about a visibility from its memo if it was asked before. Whatever a registry is
told and asked, its memo holds what a look-up gives (`serve_agree`), and so every reply is that of a registry
that remembers nothing (`memo_invisible`).

A look-up reads the classes alone. Only a new class can change what it gives, be it an answer or a failure, and
a new class makes the memo empty.
-/

namespace ClassScript.Registry

/-! ## Requests -/

/-- What a registry is told and asked. -/
inductive Request where
  | addClass (c : Class) (isInternal : Bool)
  | addInterface (i : Interface) (isInternal : Bool)
  | addFile (f : SourceFile) (isInternal : Bool)
  | visibility (cls member : String)

inductive Reply where
  | added
  | declared (names : List String)
  | visibility (v : Visibility)
deriving DecidableEq

/-- The visibility of a member of `$this` that a look-up through the entries gives; what is found nowhere is
public. -/
def lookUp (r : Registry) (cls member : String) : Result Visibility :=
  match r.visibility? cls member with
  | .error fault => .error fault.diagnostic
  | .ok found => .ok (found.getD .pub)

/-- Asks for a visibility without a memo. -/
def lookUpAnew (cls member : String) : Query Visibility := do
  let r ← getThe Registry
  match r.lookUp cls member with
  | .ok v => return v
  | .error d => throw d

/-- The reply to a request; `ask` answers questions about visibilities. -/
def Request.perform (ask : String → String → Query Visibility) : Request → Query Reply
  | .addClass c isInternal => do
    update fun r => r.addClass c isInternal
    return .added
  | .addInterface i isInternal => do
    update fun r => r.addInterface i isInternal
    return .added
  | .addFile f isInternal => do return .declared (← Registry.addFile f isInternal)
  | .visibility cls member => do return .visibility (← ask cls member)

/-- The replies to requests one after the other, failed or not. -/
def serve (ask : String → String → Query Visibility) : List Request → StateM Registry (List (Result Reply))
  | [] => return []
  | q :: rest => do
    let reply ← (q.perform ask).run
    return reply :: (← serve ask rest)

/-! ## Look-ups read the classes -/

/-- The registry without its memo. -/
def forgetful (r : Registry) : Registry := { r with memo := [] }

/-- One step up the line of ancestors. -/
theorem inherited?_unfold (r : Registry) (member : String) (seen : List String) (e : ClassEntry) :
    r.inherited? member seen e = match e.parent with
      | none => .ok none
      | some p =>
        if seen.contains p then .error (.cycle p)
        else match r.class? p with
          | none => .error (.unknownClass p)
          | some e => match ClassEntry.own? e member with
            | some .priv => .ok none
            | some v => .ok (some v)
            | none => r.inherited? member (p :: seen) e := by
  rw [inherited?]
  cases e.parent with
  | none => rfl
  | some p =>
    simp only
    split
    · rfl
    · split
      · next hnone => simp only [hnone]
      · next e' hsome => rcases hown : ClassEntry.own? e' member with _ | _ | _ | _ <;> simp only [hsome, hown]

theorem inherited?_congr {r r' : Registry} (h : r.classes = r'.classes) (member : String) (seen : List String)
    (e : ClassEntry) : r.inherited? member seen e = r'.inherited? member seen e := by
  have hclass (n : String) : r'.class? n = r.class? n := by rw [class?, class?, h]
  fun_induction inherited? r member seen e with
  | case1 seen e hparent => rw [r'.inherited?_unfold member seen e, hparent]
  | case2 seen e p hparent hseen =>
    rw [r'.inherited?_unfold member seen e, hparent]
    exact (if_pos hseen).symm
  | case3 seen e p hparent hseen hnone =>
    rw [r'.inherited?_unfold member seen e, hparent]
    simp only [if_neg hseen, hclass, hnone]
  | case4 seen e p hparent hseen q hsome hown =>
    rw [r'.inherited?_unfold member seen e, hparent]
    simp only [if_neg hseen, hclass, hsome, hown]
  | case5 seen e p hparent hseen q hsome v hpriv hown =>
    rw [r'.inherited?_unfold member seen e, hparent]
    simp only [if_neg hseen, hclass, hsome, hown]
  | case6 seen e p hparent hseen q hsome hown ih =>
    rw [ih, r'.inherited?_unfold member seen e, hparent]
    simp only [if_neg hseen, hclass, hsome, hown]

/-- Registries with the same classes give the same. -/
theorem visibility?_congr {r r' : Registry} (h : r.classes = r'.classes) (cls member : String) :
    r.visibility? cls member = r'.visibility? cls member := by
  have hclass : r.requireClass cls = r'.requireClass cls := by rw [requireClass, requireClass, class?, class?, h]
  have hinherited (e : ClassEntry) := inherited?_congr h member [] e
  simp only [visibility?, hclass, hinherited]

theorem lookUp_forgetful (r : Registry) (cls member : String) :
    r.forgetful.lookUp cls member = r.lookUp cls member := by
  have hclasses : r.forgetful.classes = r.classes := rfl
  rw [lookUp, lookUp, visibility?_congr hclasses]

theorem Remembers.of_classes {r r' : Registry} (h : r.Remembers) (hclasses : r'.classes = r.classes)
    (hmemo : r'.memo = r.memo) : r'.Remembers := by
  intro cls member v hv
  rw [visibility?_congr hclasses]
  exact h cls member v (hmemo ▸ hv)

theorem remembers_nothing {r : Registry} (h : r.memo = []) : r.Remembers := by
  intro cls member v hv
  rw [h] at hv
  cases hv

theorem Remembers.remember {r : Registry} (h : r.Remembers) {cls member : String} {found : Option Visibility}
    (hfound : r.visibility? cls member = .ok found) :
    Remembers { r with memo := ((cls, member), found.getD .pub) :: r.memo } := by
  intro cls' member' v hv
  have hclasses : ({ r with memo := ((cls, member), found.getD .pub) :: r.memo } : Registry).classes = r.classes := rfl
  rw [visibility?_congr hclasses]
  rw [List.lookup_cons] at hv
  split at hv
  · next heq =>
    cases eq_of_beq heq
    exact ⟨found, hfound, (Option.some.inj hv).symm⟩
  · exact h cls' member' v hv

/-! ## One request -/

/-- From a registry that remembers what a look-up gives, the first query replies what the second one does from
that registry without its memo. It leaves such a registry again, and the second the same without a memo. -/
def Agree {α : Type} (x y : Query α) : Prop :=
  ∀ r : Registry, r.Remembers → (x.run.run r).2.Remembers ∧
    y.run.run r.forgetful = ((x.run.run r).1, (x.run.run r).2.forgetful)

section Agree

variable {α β : Type} {x y : Query α}

theorem run_bind (x : Query α) (f : α → Query β) (r : Registry) : (x >>= f).run.run r =
    match x.run.run r with
    | (.ok a, r') => (f a).run.run r'
    | (.error d, r') => (.error d, r') := by
  rw [ExceptT.run_bind, StateT.run_bind]
  rcases x.run.run r with ⟨_ | _, _⟩ <;> rfl

theorem agree_pure (a : α) : Agree (pure a) (pure a) := fun _ hr => ⟨hr, rfl⟩

theorem Agree.bind {f g : α → Query β} (h : Agree x y) (hfg : ∀ a, Agree (f a) (g a)) :
    Agree (x >>= f) (y >>= g) := by
  intro r hr
  obtain ⟨hremembers, hy⟩ := h r hr
  rw [run_bind, run_bind, hy]
  rcases hx : x.run.run r with ⟨_ | a, r'⟩
  · rw [hx] at hremembers
    exact ⟨hremembers, rfl⟩
  · rw [hx] at hremembers
    exact hfg a r' hremembers

/-- The update reads no memo, and behind it the memo still holds what a look-up gives. -/
def Quiet (f : Registry → Result Registry) : Prop :=
  ∀ r, r.Remembers → f r.forgetful = (f r).map forgetful ∧ ∀ r', f r = .ok r' → r'.Remembers

theorem Quiet.mapError {f : Registry → Result Registry} (hf : Quiet f) (g : Diagnostic → Diagnostic) :
    Quiet fun r => (f r).mapError g := by
  intro r hr
  obtain ⟨hforgetful, hremembers⟩ := hf r hr
  refine ⟨?_, fun r' h => hremembers r' (mapError_eq_ok.1 h)⟩
  simp only [hforgetful]
  cases f r <;> rfl

theorem Quiet.agree {f : Registry → Result Registry} (hf : Quiet f) : Agree (update f) (update f) := by
  intro r hr
  obtain ⟨hforgetful, hremembers⟩ := hf r hr
  rw [update, run_ask, run_ask, hforgetful]
  cases h : f r with
  | error d => exact ⟨hr, rfl⟩
  | ok r' => exact ⟨hremembers r' h, rfl⟩

theorem agree_forM {f : β → Query Unit} (h : ∀ b, Agree (f b) (f b)) (bs : List β) :
    Agree (bs.forM f) (bs.forM f) := by
  induction bs with
  | nil => exact agree_pure ()
  | cons b bs ih => exact (h b).bind fun _ => ih

end Agree

/-- A new class makes the memo empty. -/
theorem addClass_quiet (c : Class) (isInternal : Bool) : Quiet (·.addClass c isInternal) := by
  intro r _
  have hnew : r.forgetful.requireNew c.qualifiedName c.pos = r.requireNew c.qualifiedName c.pos := rfl
  constructor
  · simp only [addClass, hnew]
    cases r.requireNew c.qualifiedName c.pos with
    | error d => rfl
    | ok _ => cases (classEntry c isInternal).mapError Fault.diagnostic <;> rfl
  · intro r' h
    obtain ⟨_, -, h⟩ := bind_eq_ok.1 h
    obtain ⟨_, -, h⟩ := bind_eq_ok.1 h
    cases h
    exact remembers_nothing rfl

/-- A new interface leaves the classes alone. -/
theorem addInterface_quiet (i : Interface) (isInternal : Bool) : Quiet (·.addInterface i isInternal) := by
  intro r hr
  have hnew : r.forgetful.requireNew i.qualifiedName i.pos = r.requireNew i.qualifiedName i.pos := rfl
  constructor
  · simp only [addInterface, hnew]
    cases r.requireNew i.qualifiedName i.pos with
    | error d => rfl
    | ok _ => cases (interfaceEntry i isInternal).mapError Fault.diagnostic <;> rfl
  · intro r' h
    obtain ⟨_, -, h⟩ := bind_eq_ok.1 h
    obtain ⟨_, -, h⟩ := bind_eq_ok.1 h
    cases h
    exact hr.of_classes rfl rfl

theorem addFile_agree (f : SourceFile) (isInternal : Bool) : Agree (addFile f isInternal) (addFile f isInternal) := by
  have hinterface (i : Interface) := ((addInterface_quiet i isInternal).mapError (·.inFile f.path)).agree
  have hclass (c : Class) := ((addClass_quiet c isInternal).mapError (·.inFile f.path)).agree
  exact (agree_forM hinterface _).bind fun _ => (agree_forM hclass _).bind fun _ => agree_pure _

/-- What is remembered of a question is what a look-up gave, and that is what one gives again. -/
theorem visibility_agree (cls member : String) : Agree (visibility cls member) (lookUpAnew cls member) := by
  intro r hr
  rw [visibility, lookUpAnew, run_ask, run_ask, lookUp_forgetful]
  cases hmemo : r.memo.lookup (cls, member) with
  | some v =>
    obtain ⟨found, hfound, rfl⟩ := hr cls member v hmemo
    rw [lookUp, hfound]
    exact ⟨hr, rfl⟩
  | none =>
    rw [lookUp]
    cases hfound : r.visibility? cls member with
    | error fault => exact ⟨hr, rfl⟩
    | ok found =>
      exact ⟨hr.remember hfound, rfl⟩

theorem perform_agree (q : Request) : Agree (q.perform visibility) (q.perform lookUpAnew) := by
  cases q with
  | addClass c isInternal => exact (addClass_quiet c isInternal).agree.bind fun _ => agree_pure _
  | addInterface i isInternal => exact (addInterface_quiet i isInternal).agree.bind fun _ => agree_pure _
  | addFile f isInternal => exact (addFile_agree f isInternal).bind fun _ => agree_pure _
  | visibility cls member => exact (visibility_agree cls member).bind fun _ => agree_pure _

/-- A question that reads no memo is answered by a look-up. -/
theorem perform_lookUpAnew (r : Registry) (cls member : String) :
    (((Request.visibility cls member).perform lookUpAnew).run.run r.forgetful).1 =
      (r.lookUp cls member).map .visibility := by
  rw [Request.perform, run_bind, lookUpAnew, run_ask, lookUp_forgetful]
  cases r.lookUp cls member <;> rfl

/-! ## Sequences of requests -/

theorem serve_cons (ask : String → String → Query Visibility) (q : Request) (rest : List Request) (r : Registry) :
    (serve ask (q :: rest)).run r =
      let x := (q.perform ask).run.run r
      let y := (serve ask rest).run x.2
      (x.1 :: y.1, y.2) := rfl

theorem serve_append (ask : String → String → Query Visibility) (before after : List Request) (r : Registry) :
    (serve ask (before ++ after)).run r =
      let x := (serve ask before).run r
      let y := (serve ask after).run x.2
      (x.1 ++ y.1, y.2) := by
  induction before generalizing r with
  | nil => rfl
  | cons q before ih => simp only [List.cons_append, serve_cons, ih]

theorem length_serve (ask : String → String → Query Visibility) (requests : List Request) (r : Registry) :
    ((serve ask requests).run r).1.length = requests.length := by
  induction requests generalizing r with
  | nil => rfl
  | cons q requests ih => simp only [serve_cons, List.length_cons, ih]

theorem serve_agree (requests : List Request) {r : Registry} (hr : r.Remembers) :
    ((serve visibility requests).run r).2.Remembers ∧
      (serve lookUpAnew requests).run r.forgetful =
        (((serve visibility requests).run r).1, ((serve visibility requests).run r).2.forgetful) := by
  induction requests generalizing r with
  | nil => exact ⟨hr, rfl⟩
  | cons q requests ih =>
    obtain ⟨hremembers, hq⟩ := perform_agree q r hr
    obtain ⟨hlast, hrest⟩ := ih hremembers
    refine ⟨hlast, ?_⟩
    simp only [serve_cons, hq, hrest]

/-- The memo of a registry does not show. The replies to any requests are those of a registry that remembers
nothing, and so are the entries behind them. A question at any place among the requests is answered by what a
look-up gives at that moment, be it a visibility or a failure. -/
theorem memo_invisible (requests : List Request) :
    ((serve visibility requests).run {}).1 = ((serve lookUpAnew requests).run {}).1 ∧
    ((serve visibility requests).run {}).2.entries = ((serve lookUpAnew requests).run {}).2.entries ∧
    ∀ before cls member after,
      ((serve visibility (before ++ .visibility cls member :: after)).run {}).1[before.length]? =
        some ((((serve visibility before).run {}).2.lookUp cls member).map .visibility) := by
  have hempty : Remembers {} := remembers_nothing rfl
  have hplain : (serve lookUpAnew requests).run {} = _ := (serve_agree requests hempty).2
  refine ⟨by rw [hplain], by rw [hplain]; rfl, fun before cls member after => ?_⟩
  have hreplies := congrArg (·.1[before.length]?)
    (serve_append visibility before (.visibility cls member :: after) {})
  refine hreplies.trans ?_
  have hremembers := (serve_agree before hempty).1
  rw [List.getElem?_append_right (length_serve ..).le, length_serve, Nat.sub_self, serve_cons,
    List.getElem?_cons_zero, ← perform_lookUpAnew]
  exact congrArg (fun x => some x.1) (perform_agree (.visibility cls member) _ hremembers).2.symm

end ClassScript.Registry
