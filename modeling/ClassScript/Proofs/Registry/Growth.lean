import ClassScript.Proofs.Registry.Constants
import ClassScript.Proofs.Registry.Memo
import ClassScript.Proofs.Registry.Records
/-!
# Registries grow

Whatever a registry is told, its entries stay as they are and others come behind them (`Grows`). A declaration
that is refused leaves no trace, so a file that is refused has added those of its declarations that come before
the one at fault (`forM_update`). What holds of one request (`perform_grows`) is carried through a run of them
(`serve_grows`), and the invariants of a registry are read off from there (`entries_kept`).
-/

namespace ClassScript

/-- A class or an interface. -/
abbrev Declared := Class ⊕ Interface

/-- The declarations of a file in the order a registry takes them: interfaces, then classes. -/
def SourceFile.additions (f : SourceFile) : List Declared :=
  f.interfaces.map .inr ++ f.classes.map .inl

namespace Registry

open scoped List

/-- The entry of a declaration, which comes with the library or not. -/
inductive EntryOf : Declared × Bool → ClassEntry ⊕ InterfaceEntry → Prop
  | cls {c isInternal e} : classEntry c isInternal = .ok e → EntryOf (.inl c, isInternal) (.inl e)
  | interface {i isInternal e} : interfaceEntry i isInternal = .ok e → EntryOf (.inr i, isInternal) (.inr e)

/-- The registry with one more declaration. -/
def add (isInternal : Bool) (r : Registry) : Declared → Result Registry
  | .inl c => r.addClass c isInternal
  | .inr i => r.addInterface i isInternal

/-- The declarations that a registry is told of. -/
def Request.told : Request → List (Declared × Bool)
  | .addClass c isInternal => [(.inl c, isInternal)]
  | .addInterface i isInternal => [(.inr i, isInternal)]
  | .addFile f isInternal => f.additions.map (·, isInternal)
  | .visibility .. => []

/-! ## Growth -/

/-- The registry keeps its entries, and behind them come those of the declarations. Names stay unique. -/
structure Grows (r : Registry) (told : List (Declared × Bool)) (r' : Registry) : Prop where
  entries : ∃ es, List.Forall₂ EntryOf told es ∧
    r'.classes = r.classes ++ es.filterMap Sum.getLeft? ∧
    r'.interfaces = r.interfaces ++ es.filterMap Sum.getRight?
  nodup : r.names.Nodup → r'.names.Nodup

namespace Grows

variable {r r' r'' : Registry} {told told' : List (Declared × Bool)}

theorem of_entries (h : r'.entries = r.entries) : Grows r [] r' := by
  obtain ⟨hclasses, hinterfaces⟩ := Prod.mk.inj h
  refine ⟨⟨[], .nil, by simpa using hclasses, by simpa using hinterfaces⟩, fun hr => ?_⟩
  rwa [names, hclasses, hinterfaces]

theorem entries_eq (h : Grows r [] r') : r'.entries = r.entries := by
  obtain ⟨_, hes, hclasses, hinterfaces⟩ := h.entries
  cases hes
  simp [Registry.entries, hclasses, hinterfaces]

theorem trans (h : Grows r told r') (h' : Grows r' told' r'') : Grows r (told ++ told') r'' := by
  obtain ⟨es, hes, hclasses, hinterfaces⟩ := h.entries
  obtain ⟨es', hes', hclasses', hinterfaces'⟩ := h'.entries
  refine ⟨⟨es ++ es', List.rel_append hes hes', ?_, ?_⟩, fun hr => h'.nodup (h.nodup hr)⟩
  · rw [hclasses', hclasses, List.filterMap_append, List.append_assoc]
  · rw [hinterfaces', hinterfaces, List.filterMap_append, List.append_assoc]

/-- A class that is known stays as it is: look-ups find the first entry of a name. -/
theorem class? (h : Grows r told r') {n : String} {e : ClassEntry} (he : r.class? n = some e) :
    r'.class? n = some e := by
  obtain ⟨es, -, hclasses, -⟩ := h.entries
  rw [Registry.class?] at he ⊢
  rw [hclasses, List.find?_append, he, Option.some_or]

theorem interface? (h : Grows r told r') {n : String} {e : InterfaceEntry} (he : r.interface? n = some e) :
    r'.interface? n = some e := by
  obtain ⟨es, -, -, hinterfaces⟩ := h.entries
  rw [Registry.interface?] at he ⊢
  rw [hinterfaces, List.find?_append, he, Option.some_or]

/-- The classes of a registry that started empty were told. -/
theorem class_told (h : Grows {} told r) {e : ClassEntry} (he : e ∈ r.classes) :
    ∃ c isInternal, (.inl c, isInternal) ∈ told ∧ classEntry c isInternal = .ok e := by
  obtain ⟨es, hes, hclasses, -⟩ := h.entries
  rw [hclasses, List.nil_append] at he
  obtain ⟨x, hx, hleft⟩ := List.mem_filterMap.1 he
  obtain rfl := Sum.getLeft?_eq_some_iff.1 hleft
  obtain ⟨_, hd, hentry⟩ := exists_of_forall₂ hes hx
  cases hentry with
  | cls he => exact ⟨_, _, hd, he⟩

theorem interface_told (h : Grows {} told r) {e : InterfaceEntry} (he : e ∈ r.interfaces) :
    ∃ i isInternal, (.inr i, isInternal) ∈ told ∧ interfaceEntry i isInternal = .ok e := by
  obtain ⟨es, hes, -, hinterfaces⟩ := h.entries
  rw [hinterfaces, List.nil_append] at he
  obtain ⟨x, hx, hright⟩ := List.mem_filterMap.1 he
  obtain rfl := Sum.getRight?_eq_some_iff.1 hright
  obtain ⟨_, hd, hentry⟩ := exists_of_forall₂ hes hx
  cases hentry with
  | interface he => exact ⟨_, _, hd, he⟩

end Grows

/-! ## One declaration -/

variable {r r' : Registry} {isInternal : Bool}

theorem add_grows {d : Declared} (h : add isInternal r d = .ok r') : Grows r [(d, isInternal)] r' := by
  rcases d with c | i
  · have hnodup := (addClass_adds h).nodup
    obtain ⟨_, -, h⟩ := bind_eq_ok.1 h
    obtain ⟨e, he, h⟩ := bind_eq_ok.1 h
    cases h
    exact ⟨⟨[.inl e], .cons (.cls (mapError_eq_ok.1 he)) .nil, rfl, (List.append_nil _).symm⟩, hnodup⟩
  · have hnodup := (addInterface_adds h).nodup
    obtain ⟨_, -, h⟩ := bind_eq_ok.1 h
    obtain ⟨e, he, h⟩ := bind_eq_ok.1 h
    cases h
    exact ⟨⟨[.inr e], .cons (.interface (mapError_eq_ok.1 he)) .nil, (List.append_nil _).symm, rfl⟩, hnodup⟩

/-! ## Several declarations -/

theorem mapError_eq_error {ε ε' α : Type} {x : Except ε α} {g : ε → ε'} {d : ε'} :
    x.mapError g = .error d ↔ ∃ d', x = .error d' ∧ g d' = d := by
  cases x <;> simp [Except.mapError]

theorem run_update (f : Registry → Result Registry) (r : Registry) : (update f).run.run r =
    match f r with
    | .ok r' => (.ok (), r')
    | .error d => (.error d, r) := by
  rw [update, run_ask]
  cases f r <;> rfl

/-- Updates are made up to the first that fails, and what every one of them keeps holds of those that were made. -/
theorem forM_update {α : Type} {g : α → Registry → Result Registry} {P : List α → Registry → Prop}
    (hg : ∀ {xs x r r'}, P xs r → g x r = .ok r' → P (xs ++ [x]) r') {before xs : List α} (h₀ : P before r)
    {answer : Result Unit} (h : (xs.forM fun x => update (g x)).run.run r = (answer, r')) :
    (answer = .ok () ∧ P (before ++ xs) r') ∨
      ∃ done next rest d, xs = done ++ next :: rest ∧ P (before ++ done) r' ∧ g next r' = .error d ∧
        answer = .error d := by
  induction xs generalizing r before with
  | nil =>
    cases h
    exact .inl ⟨rfl, (List.append_nil before).symm ▸ h₀⟩
  | cons x xs ih =>
    have hsteps := (run_bind (update (g x)) (fun _ => xs.forM fun x => update (g x)) r).symm.trans h
    rw [run_update] at hsteps
    cases hx : g x r with
    | error d =>
      simp only [hx] at hsteps
      cases hsteps
      exact .inr ⟨[], x, xs, d, rfl, (List.append_nil before).symm ▸ h₀, hx, rfl⟩
    | ok r₁ =>
      simp only [hx] at hsteps
      obtain ⟨hok, hall⟩ | ⟨done, next, rest, d, rfl, hdone, hnext, herror⟩ := ih (hg h₀ hx) hsteps
      · exact .inl ⟨hok, by simpa using hall⟩
      · exact .inr ⟨x :: done, next, rest, d, rfl, by simpa using hdone, hnext, herror⟩

/-- Declarations are taken one after the other, up to the first that is refused; `tag` tells where it stands. -/
def Takes {α : Type} (tag : Diagnostic → Diagnostic) (r : Registry) (told : List (Declared × Bool))
    (z : Result α × Registry) : Prop :=
  ((∃ reply, z.1 = .ok reply) ∧ Grows r told z.2) ∨
    ∃ done next rest d, told = done ++ next :: rest ∧ Grows r done z.2 ∧ add next.2 z.2 next.1 = .error d ∧
      z.1 = .error (tag d)

theorem forM_takes {α : Type} (tag : Diagnostic → Diagnostic) (told : List (Declared × Bool)) (reply : α)
    (r : Registry) :
    Takes tag r told ((do
      told.forM fun d => update fun r => (add d.2 r d.1).mapError tag
      return reply : Query α).run.run r) := by
  rw [run_bind]
  rcases h : (told.forM fun d => update fun r => (add d.2 r d.1).mapError tag).run.run r with ⟨answer, r'⟩
  obtain ⟨rfl, hall⟩ | ⟨done, next, rest, d, htold, hdone, hnext, rfl⟩ := forM_update
    (P := fun told r' => Grows r told r') (fun hr hstep => hr.trans (add_grows (mapError_eq_ok.1 hstep)))
    (.of_entries rfl) h
  · exact .inl ⟨⟨reply, rfl⟩, hall⟩
  · obtain ⟨d', hd', rfl⟩ := mapError_eq_error.1 hnext
    exact .inr ⟨done, next, rest, d', htold, hdone, hd', rfl⟩

/-- A file is added one declaration after the other. -/
theorem addFile_eq (f : SourceFile) (isInternal : Bool) : addFile f isInternal = do
    (f.additions.map (·, isInternal)).forM fun d => update fun r => (add d.2 r d.1).mapError (·.inFile f.path)
    return f.interfaces.map Interface.qualifiedName ++ f.classes.map Class.qualifiedName := by
  simp only [addFile, SourceFile.additions, List.forM_eq_forM, List.map_append, List.forM_append, List.forM_map,
    bind_assoc]
  rfl

/-! ## One request -/

theorem add_takes {α : Type} (d : Declared) (isInternal : Bool) (reply : α) (r : Registry) :
    Takes id r [(d, isInternal)] ((do
      update (add isInternal · d)
      return reply : Query α).run.run r) := by
  rw [run_bind, run_update]
  cases h : add isInternal r d with
  | ok r' => exact .inl ⟨⟨reply, rfl⟩, add_grows h⟩
  | error e => exact .inr ⟨[], _, [], e, rfl, .of_entries rfl, h, rfl⟩

theorem addFile_takes (f : SourceFile) (isInternal : Bool) (r : Registry) :
    Takes (·.inFile f.path) r (f.additions.map (·, isInternal))
      (((Request.addFile f isInternal).perform visibility).run.run r) := by
  rw [Request.perform, addFile_eq, bind_assoc]
  exact forM_takes _ _ _ r

/-- Whatever a request comes to, the registry takes the first of the declarations that it is told, or all. -/
theorem perform_grows (q : Request) (r : Registry) :
    ∃ taken, taken <+: q.told ∧ Grows r taken ((q.perform visibility).run.run r).2 := by
  have htakes {tag : Diagnostic → Diagnostic} {told : List (Declared × Bool)} {z : Result Reply × Registry}
      (h : Takes tag r told z) : ∃ taken, taken <+: told ∧ Grows r taken z.2 := by
    obtain ⟨-, hall⟩ | ⟨done, next, rest, d, htold, hdone, -, -⟩ := h
    · exact ⟨told, List.prefix_rfl, hall⟩
    · exact ⟨done, ⟨next :: rest, htold.symm⟩, hdone⟩
  cases q with
  | addClass c isInternal => exact htakes (add_takes (.inl c) isInternal Reply.added r)
  | addInterface i isInternal => exact htakes (add_takes (.inr i) isInternal Reply.added r)
  | addFile f isInternal => exact htakes (addFile_takes f isInternal r)
  | visibility cls member =>
    refine ⟨[], List.nil_prefix, .of_entries ?_⟩
    rw [Request.perform, run_bind, ← visibility_entries cls member r]
    rcases (visibility cls member).run.run r with ⟨_ | _, _⟩ <;> rfl

/-! ## Sequences of requests -/

theorem serve_grows (requests : List Request) (r : Registry) :
    ∃ taken, taken <+ requests.flatMap Request.told ∧ Grows r taken ((serve visibility requests).run r).2 := by
  induction requests generalizing r with
  | nil => exact ⟨[], List.Sublist.refl _, .of_entries rfl⟩
  | cons q requests ih =>
    obtain ⟨taken, htaken, hgrows⟩ := perform_grows q r
    obtain ⟨taken', htaken', hgrows'⟩ := ih ((q.perform visibility).run.run r).2
    refine ⟨taken ++ taken', ?_, ?_⟩
    · rw [List.flatMap_cons]
      exact htaken.sublist.append htaken'
    · rw [serve_cons]
      exact hgrows.trans hgrows'

theorem serve_nodup (requests : List Request) : ((serve visibility requests).run {}).2.names.Nodup := by
  obtain ⟨_, -, hgrows⟩ := serve_grows requests {}
  exact hgrows.nodup (by simp [names])

/-- What takes a single declaration takes it, or leaves the entries as they are. -/
theorem Takes.single {α : Type} {tag : Diagnostic → Diagnostic} {x : Declared × Bool} {z : Result α × Registry}
    (h : Takes tag r [x] z) :
    (∃ reply, z.1 = .ok reply) ∧ Grows r [x] z.2 ∨ (∃ d, z.1 = .error d) ∧ z.2.entries = r.entries := by
  obtain htaken | ⟨done, next, rest, d, htold, hdone, -, hrefused⟩ := h
  · exact .inl htaken
  · obtain ⟨rfl, -⟩ | ⟨_, _, hnil⟩ := List.cons_eq_append_iff.1 htold
    · exact .inr ⟨⟨_, hrefused⟩, hdone.entries_eq⟩
    · simp at hnil

/-- Whatever a registry was told and asked, no name is that of a class and of an interface. An entry is found under
the qualified name of the declaration that it was made from, and later requests leave it as it is. A class or
interface is added, or it is refused and all entries are as before. A file is added, or the entries grow by those
of its declarations before the first that is refused. -/
theorem entries_grow (requests : List Request) :
    let r := ((serve visibility requests).run {}).2
    (∀ n, r.class? n = none ∨ r.interface? n = none) ∧
    (∀ e ∈ r.classes, r.class? e.name = some e ∧ ∃ c isInternal,
      (.inl c, isInternal) ∈ requests.flatMap Request.told ∧ c.qualifiedName = e.name ∧
        classEntry c isInternal = .ok e) ∧
    (∀ e ∈ r.interfaces, r.interface? e.name = some e ∧ ∃ i isInternal,
      (.inr i, isInternal) ∈ requests.flatMap Request.told ∧ i.qualifiedName = e.name ∧
        interfaceEntry i isInternal = .ok e) ∧
    (∀ more,
      let r' := ((serve visibility (requests ++ more)).run {}).2
      (∀ n e, r.class? n = some e → r'.class? n = some e) ∧
        ∀ n e, r.interface? n = some e → r'.interface? n = some e) ∧
    (∀ c isInternal,
      let z := ((Request.addClass c isInternal).perform visibility).run.run r
      (∃ reply, z.1 = .ok reply) ∧ Grows r [(.inl c, isInternal)] z.2 ∨
        (∃ d, z.1 = .error d) ∧ z.2.entries = r.entries) ∧
    (∀ i isInternal,
      let z := ((Request.addInterface i isInternal).perform visibility).run.run r
      (∃ reply, z.1 = .ok reply) ∧ Grows r [(.inr i, isInternal)] z.2 ∨
        (∃ d, z.1 = .error d) ∧ z.2.entries = r.entries) ∧
    ∀ f isInternal,
      let z := ((Request.addFile f isInternal).perform visibility).run.run r
      (∃ reply, z.1 = .ok reply) ∧ Grows r (f.additions.map (·, isInternal)) z.2 ∨
        ∃ done next rest d, f.additions = done ++ next :: rest ∧ Grows r (done.map (·, isInternal)) z.2 ∧
          add isInternal z.2 next = .error d ∧ z.1 = .error (d.inFile f.path) := by
  intro r
  have hnodup : r.names.Nodup := serve_nodup requests
  obtain ⟨taken, htaken, hgrows⟩ := serve_grows requests {}
  refine ⟨fun n => ?_, fun e he => ?_, fun e he => ?_, fun more => ?_, fun c isInternal => ?_, fun i isInternal => ?_,
    fun f isInternal => ?_⟩
  · cases hn : r.class? n with
    | none => exact .inl rfl
    | some _ => exact .inr (apart_of_nodup hnodup n (by rw [hn]; rfl))
  · obtain ⟨c, isInternal, hc, hentry⟩ := hgrows.class_told he
    exact ⟨find?_of_nodup (List.nodup_append.1 hnodup).1 he, c, isInternal, htaken.subset hc,
      (classEntry_name hentry).symm, hentry⟩
  · obtain ⟨i, isInternal, hi, hentry⟩ := hgrows.interface_told he
    exact ⟨find?_of_nodup (List.nodup_append.1 hnodup).2.1 he, i, isInternal, htaken.subset hi,
      (interfaceEntry_name hentry).symm, hentry⟩
  · obtain ⟨_, -, hmore⟩ := serve_grows more r
    rw [serve_append]
    exact ⟨fun n e he => hmore.class? he, fun n e he => hmore.interface? he⟩
  · exact (add_takes (.inl c) isInternal Reply.added r).single
  · exact (add_takes (.inr i) isInternal Reply.added r).single
  · -- The declarations carry one mark each, so a prefix of the marked ones is a marked prefix.
    obtain htaken | ⟨_, _, _, d, htold, hdone, hnext, hrefused⟩ := addFile_takes f isInternal r
    · exact .inl htaken
    · obtain ⟨done, rest', hadditions, rfl, hrest⟩ := List.map_eq_append_iff.1 htold
      obtain ⟨next, rest, rfl, rfl, -⟩ := List.map_eq_cons_iff.1 hrest
      exact .inr ⟨done, next, rest, d, hadditions, hdone, hnext, hrefused⟩

/-- A class without members. -/
def plainClass (name : String) (parent : Option String) (interfaces : List String) : Class where
  name
  parent := parent.map .global
  interfaces := interfaces.map .global
  members := []
  isAbstract := false
  isFinal := false
  pos := .unknown
  qualified := none
  scriptApis := none

/-- An interface without members. -/
def plainInterface (name : String) (parents : List String) : Interface where
  name
  parents := parents.map .global
  members := []
  pos := .unknown
  qualified := none

def discFile : SourceFile where
  path := "disc"
  stmts := [.classDecl (plainClass "Disc" none ["Round"]), .classDecl (plainClass "Shape" none []),
    .interfaceDecl (plainInterface "Round" [])]

/-- A file with a class that has the name of a known interface. The interface and the class before it stay. -/
theorem discFile_refused :
    let r := ((serve visibility [.addInterface (plainInterface "Shape" []) false]).run {}).2
    let z := ((Request.addFile discFile false).perform visibility).run.run r
    z.2.classes.map (·.name) = ["Disc"] ∧ z.2.interfaces.map (·.name) = ["Shape", "Round"] ∧
      ∃ done next rest d, discFile.additions = done ++ next :: rest ∧ Grows r (done.map (·, false)) z.2 ∧
        add false z.2 next = .error d ∧ z.1 = .error (d.inFile "disc") := by
  intro r z
  have hrefused : ∃ d, z.1 = .error d := ⟨((Fault.duplicate "Shape").diagnostic.placed .unknown).inFile "disc", by rfl⟩
  refine ⟨by decide +kernel, by decide +kernel, ?_⟩
  obtain ⟨⟨_, hok⟩, -⟩ | hdone :=
    (entries_grow [.addInterface (plainInterface "Shape" []) false]).2.2.2.2.2.2 discFile false
  · obtain ⟨d, hd⟩ := hrefused
    cases hd.symm.trans hok
  · exact hdone

end Registry

end ClassScript
