import ClassScript.Proofs.Tree.Through
import ClassScript.Registry.Visibility
import ClassScript.Text.Dictionary
/-!
# The names in a registry

A registry knows each name once. A file adds the names of its classes and interfaces behind those
that are known, and fails if one of them is known (`addFile_adds`).
-/

namespace ClassScript.Registry

open scoped List

/-- What a registry knows, without what it remembers of questions. -/
def entries (r : Registry) : List ClassEntry × List InterfaceEntry := (r.classes, r.interfaces)

/-- The names of all entries. -/
def names (r : Registry) : List String := r.classes.map (·.name) ++ r.interfaces.map (·.name)

theorem contains_iff {r : Registry} {n : String} : r.contains n = true ↔ n ∈ r.names := by
  simp [contains, class?, interface?, names, List.find?_isSome]

/-! ## Members -/

theorem lookup_put (t : MemberTable) (name : String) (v : Visibility) (m : String) :
    (t.put name v).lookup m = if m = name then some v else t.lookup m := by
  induction t with
  | nil => simp [MemberTable.put, Dictionary.lookup_cons_ite]
  | cons x t ih => grind [MemberTable.put, Dictionary.lookup_cons_ite]

theorem visibilityOf_eq_ok {owner member : String} {resolved : Option Visibility} {v : Visibility} :
    visibilityOf owner member resolved = .ok v ↔ resolved = some v := by
  cases resolved <;> simp [visibilityOf]

/-! ## Entries keep their name -/

/-- What every step of a fold keeps. -/
theorem foldlM_keeps {ε α β γ : Type} {f : β → α → Except ε β} {g : β → γ}
    (hf : ∀ {b a b'}, f b a = .ok b' → g b' = g b) {as : List α} {b b' : β}
    (h : as.foldlM f b = .ok b') : g b' = g b := by
  induction as generalizing b with
  | nil => exact congrArg g (Except.ok.inj h).symm
  | cons a as ih =>
    obtain ⟨b₁, hstep, h⟩ := bind_eq_ok.1 h
    exact (ih h).trans (hf hstep)

theorem classEntry_name {c : Class} {isInternal : Bool} {e : ClassEntry}
    (h : classEntry c isInternal = .ok e) : e.name = c.qualifiedName := by
  refine foldlM_keeps (g := ClassEntry.name) (fun {e m e'} hstep => ?_) h
  cases m with
  | traitUse => cases hstep; rfl
  | _ =>
    obtain ⟨_, -, hstep⟩ := bind_eq_ok.1 hstep
    cases hstep
    rfl

theorem interfaceEntry_name {i : Interface} {isInternal : Bool} {e : InterfaceEntry}
    (h : interfaceEntry i isInternal = .ok e) : e.name = i.qualifiedName := by
  refine foldlM_keeps (g := InterfaceEntry.name) (fun {e m e'} hstep => ?_) h
  cases m with
  | traitUse | property => cases hstep; rfl
  | _ =>
    obtain ⟨_, -, hstep⟩ := bind_eq_ok.1 hstep
    cases hstep
    rfl

/-! ## Declarations -/

/-- The registry grows by these classes and interfaces, none of which it knows. -/
structure Adds (r : Registry) (classes interfaces : List String) (r' : Registry) : Prop where
  classes : r'.classes.map (·.name) = r.classes.map (·.name) ++ classes
  interfaces : r'.interfaces.map (·.name) = r.interfaces.map (·.name) ++ interfaces
  nodup : r.names.Nodup → r'.names.Nodup

namespace Adds

variable {r r' r'' : Registry} {cs cs' is is' : List String}

theorem refl (r : Registry) : Adds r [] [] r := ⟨by simp, by simp, id⟩

theorem trans (h : Adds r cs is r') (h' : Adds r' cs' is' r'') : Adds r (cs ++ cs') (is ++ is') r'' where
  classes := by rw [h'.classes, h.classes, List.append_assoc]
  interfaces := by rw [h'.interfaces, h.interfaces, List.append_assoc]
  nodup hr := h'.nodup (h.nodup hr)

theorem mem_names (h : Adds r cs is r') {n : String} : n ∈ r'.names ↔ n ∈ r.names ∨ n ∈ cs ∨ n ∈ is := by
  simp only [names, h.classes, h.interfaces, List.mem_append]
  tauto

end Adds

theorem requireNew_ok {r : Registry} {name : String} {pos : Position} (h : r.requireNew name pos = .ok ()) :
    name ∉ r.names := by
  unfold requireNew at h
  split at h
  · cases h
  · next hnew => exact fun hmem => hnew (contains_iff.2 hmem)

theorem addClass_adds {r r' : Registry} {c : Class} {isInternal : Bool}
    (h : r.addClass c isInternal = .ok r') : Adds r [c.qualifiedName] [] r' := by
  obtain ⟨_, hnew, h⟩ := bind_eq_ok.1 h
  obtain ⟨e, he, h⟩ := bind_eq_ok.1 h
  cases h
  have hname := classEntry_name (mapError_eq_ok.1 he)
  refine ⟨by simp [hname], by simp, fun hr => ?_⟩
  have hperm : names { r with classes := r.classes ++ [e], memo := [] } ~ c.qualifiedName :: r.names := by
    simp only [names, List.map_append, List.map_cons, List.map_nil, hname, List.append_assoc]
    exact List.perm_middle
  exact hperm.nodup_iff.2 (List.nodup_cons.2 ⟨requireNew_ok hnew, hr⟩)

theorem addInterface_adds {r r' : Registry} {i : Interface} {isInternal : Bool}
    (h : r.addInterface i isInternal = .ok r') : Adds r [] [i.qualifiedName] r' := by
  obtain ⟨_, hnew, h⟩ := bind_eq_ok.1 h
  obtain ⟨e, he, h⟩ := bind_eq_ok.1 h
  cases h
  have hname := interfaceEntry_name (mapError_eq_ok.1 he)
  refine ⟨by simp, by simp [hname], fun hr => ?_⟩
  have hperm : names { r with interfaces := r.interfaces ++ [e] } ~ i.qualifiedName :: r.names := by
    simp only [names, List.map_append, List.map_cons, List.map_nil, hname, ← List.append_assoc]
    exact List.perm_append_singleton _ _
  exact hperm.nodup_iff.2 (List.nodup_cons.2 ⟨requireNew_ok hnew, hr⟩)

/-! ## Files -/

theorem run_ask {α : Type} (f : Registry → Query α) (r : Registry) :
    (getThe Registry >>= f).run.run r = (f r).run.run r := rfl

/-- Only the memo of a registry changes when it is asked for a visibility. -/
theorem visibility_entries (cls member : String) (r : Registry) :
    ((visibility cls member).run.run r).2.entries = r.entries := by
  rw [visibility, run_ask]
  split
  · rfl
  · split <;> rfl

theorem query_bind_ok {α β : Type} {x : Query α} {f : α → Query β} {r r'' : Registry} {b : β}
    (h : (x >>= f).run.run r = (.ok b, r'')) :
    ∃ a r', x.run.run r = (.ok a, r') ∧ (f a).run.run r' = (.ok b, r'') := by
  rw [ExceptT.run_bind, StateT.run_bind] at h
  rcases hx : x.run.run r with ⟨a, r'⟩
  rw [hx] at h
  cases a with
  | error d => cases h
  | ok a => exact ⟨a, r', rfl, h⟩

theorem update_ok {f : Registry → Result Registry} {r r' : Registry} {u : Unit}
    (h : (update f).run.run r = (.ok u, r')) : f r = .ok r' := by
  rw [update, run_ask] at h
  split at h
  · next hf => cases h; exact hf
  · cases h

/-- What each of several updates adds, they add together. -/
theorem forM_adds {α : Type} {g : α → Registry → Result Registry} {cs is : α → List String}
    (hg : ∀ x {r r'}, g x r = .ok r' → Adds r (cs x) (is x) r') {xs : List α} {r r' : Registry}
    (h : (xs.forM fun x => update (g x)).run.run r = (.ok (), r')) :
    Adds r (xs.flatMap cs) (xs.flatMap is) r' := by
  induction xs generalizing r with
  | nil => cases h; exact .refl r'
  | cons x xs ih =>
    obtain ⟨_, r₁, hx, h⟩ := query_bind_ok h
    exact (hg x (update_ok hx)).trans (ih h)

/-- The names of a file are added, the interfaces first. -/
theorem addFile_adds {f : SourceFile} {isInternal : Bool} {r r' : Registry} {declared : List String}
    (h : (addFile f isInternal).run.run r = (.ok declared, r')) :
    Adds r (f.classes.map Class.qualifiedName) (f.interfaces.map Interface.qualifiedName) r' ∧
      declared = f.interfaces.map Interface.qualifiedName ++ f.classes.map Class.qualifiedName := by
  obtain ⟨_, r₁, hinterfaces, h⟩ := query_bind_ok h
  obtain ⟨_, r₂, hclasses, h⟩ := query_bind_ok h
  cases h
  have hi := forM_adds (fun _ _ _ h => addInterface_adds (mapError_eq_ok.1 h)) hinterfaces
  have hc := forM_adds (fun _ _ _ h => addClass_adds (mapError_eq_ok.1 h)) hclasses
  have hnil {α : Type} (xs : List α) : xs.flatMap (fun _ => ([] : List String)) = [] :=
    List.flatMap_eq_nil_iff.2 fun _ _ => rfl
  refine ⟨?_, rfl⟩
  have hadds := hi.trans hc
  rwa [hnil, hnil, List.nil_append, List.append_nil, ← List.map_eq_flatMap, ← List.map_eq_flatMap] at hadds

end ClassScript.Registry
