import ClassScript.Proofs.Tree.Through
/-!
# Outlines

The outline of a part keeps one face of it and of each part below. What is reduced from faces alone
is the same for parts with the same outline (`fold_eq_of_outline`), so a pass that keeps the outline
keeps it too. A pass keeps outlines if it does so where it looks at parts (`Outlined.rebuilt`).
-/

namespace ClassScript

inductive Outline where
  | node (face : Part) (below : List Outline)

namespace Part

def outline (face : Part → Part) (p : Part) : Outline := p.fold fun p below => .node (face p) below

variable {face : Part → Part} {p p' : Part}

theorem outline_eq : p.outline face = .node (face p) (p.children.map (·.outline face)) := by
  rw [outline, fold_eq]
  rfl

theorem outline_eq_iff : p.outline face = p'.outline face ↔
    face p = face p' ∧ p.children.map (·.outline face) = p'.children.map (·.outline face) := by
  rw [outline_eq, outline_eq, Outline.node.injEq]

/-- What follows from the same outline, one by one. -/
theorem map_eq_of_outlines {α : Type} {f : Part → α} {ps ps' : List Part}
    (hf : ∀ p ∈ ps, ∀ p', p.outline face = p'.outline face → f p = f p')
    (h : ps.map (·.outline face) = ps'.map (·.outline face)) : ps.map f = ps'.map f := by
  induction ps generalizing ps' with
  | nil =>
    cases ps' with
    | nil => rfl
    | cons => cases h
  | cons p ps ih =>
    cases ps' with
    | nil => cases h
    | cons p' ps' =>
      obtain ⟨hp, hps⟩ := List.cons.inj h
      rw [List.map_cons, List.map_cons, hf p (.head _) p' hp, ih (fun q hq => hf q (.tail _ hq)) hps]

/-- Parts with the same outline are reduced to the same. -/
theorem fold_eq_of_outline {α : Type} {f : Part → List α → α}
    (hf : ∀ {p p'} below, face p = face p' → f p below = f p' below)
    (h : p.outline face = p'.outline face) : p.fold f = p'.fold f := by
  induction p using Part.induction generalizing p' with
  | step p ih =>
    obtain ⟨hface, hbelow⟩ := outline_eq_iff.1 h
    rw [fold_eq, fold_eq, hf _ hface, map_eq_of_outlines (fun c hc _ => ih c hc) hbelow]

theorem all_outline_eq (h : p.outline face = p'.outline face) :
    p.all.map (·.outline face) = p'.all.map (·.outline face) := by
  induction p using Part.induction generalizing p' with
  | step p ih =>
    have hall : p.children.map (·.all.map (·.outline face)) =
        p'.children.map (·.all.map (·.outline face)) :=
      map_eq_of_outlines (fun c hc _ => ih c hc) (outline_eq_iff.1 h).2
    rw [all_eq, all_eq, List.map_cons, List.map_cons, h, List.map_flatMap, List.map_flatMap,
      List.flatMap_def, List.flatMap_def, hall]

theorem exists_of_outline (h : p.outline face = p'.outline face) {q : Part} (hq : q ∈ p.all) :
    ∃ q' ∈ p'.all, q.outline face = q'.outline face := by
  have hmem : q.outline face ∈ p'.all.map (·.outline face) := all_outline_eq h ▸ List.mem_map_of_mem hq
  obtain ⟨q', hq', heq⟩ := List.mem_map.1 hmem
  exact ⟨q', hq', heq.symm⟩

/-- What a face tells is the same for parts with the same outline. -/
theorem eq_of_outline {α : Type} {f : Part → α} (hf : ∀ q, f (face q) = f q)
    (h : p.outline face = p'.outline face) : f p = f p' := by
  rw [← hf p, (outline_eq_iff.1 h).1, hf p']

theorem members_cons (m : Member) (ms : List Member) : members (m :: ms) = members [m] ++ members ms := by
  cases m <;> simp [members]

/-- Members that keep their outlines, one by one. -/
theorem members_outlines {f : Member → Member}
    (hf : ∀ m, (members [f m]).map (·.outline face) = (members [m]).map (·.outline face))
    (ms : List Member) : (members (ms.map f)).map (·.outline face) = (members ms).map (·.outline face) := by
  induction ms with
  | nil => rfl
  | cons m ms ih =>
    rw [List.map_cons, members_cons, members_cons m, List.map_append, List.map_append, hf m, ih]

theorem interfaceMembers_outlines {f : Member → Member}
    (hf : ∀ m, (members [f m]).map (·.outline face) = (members [m]).map (·.outline face))
    (hproperty : ∀ m, (f m).property?.isNone = m.property?.isNone) (ms : List Member) :
    (interfaceMembers (ms.map f)).map (·.outline face) = (interfaceMembers ms).map (·.outline face) := by
  rw [interfaceMembers_map hproperty, interfaceMembers_eq, members_outlines hf]

end Part

/-- The files have the same outline. -/
def SourceFile.Alike (face : Part → Part) (f f' : SourceFile) : Prop :=
  (Part.stmts f.stmts).map (·.outline face) = (Part.stmts f'.stmts).map (·.outline face)

theorem SourceFile.Alike.exists_part {face : Part → Part} {f f' : SourceFile} (h : f.Alike face f')
    {q : Part} (hq : q ∈ f.parts) : ∃ q' ∈ f'.parts, q.outline face = q'.outline face := by
  have hall : f.parts.map (·.outline face) = f'.parts.map (·.outline face) := by
    rw [parts, parts, List.map_flatMap, List.map_flatMap, List.flatMap_def, List.flatMap_def,
      Part.map_eq_of_outlines (fun _ _ _ => Part.all_outline_eq) h]
  have hmem : q.outline face ∈ f'.parts.map (·.outline face) := hall ▸ List.mem_map_of_mem hq
  obtain ⟨q', hq', heq⟩ := List.mem_map.1 hmem
  exact ⟨q', hq', heq.symm⟩

/-! ## Passes that keep outlines -/

section Outlined

variable {κ : Type} {face : Part → Part} {k k' : κ}

/-- A part becomes one part with the same outline. -/
structure Outlined (face : Part → Part) (k : κ) (p : Part) (ps : List Part) (k' : κ) : Prop where
  stub : ∀ {p'}, ps = [p'] → p'.stub = p.stub
  outline : ps.map (·.outline face) = [p.outline face]

theorem Outlined.keepsStubs : Change.KeepsStubs (Outlined face : Change κ) := fun h => h.stub rfl

theorem Outlined.one {p p' : Part} (hstub : p'.stub = p.stub)
    (h : p'.outline face = p.outline face) : Outlined face k p [p'] k' where
  stub hp := List.singleton_inj.1 hp ▸ hstub
  outline := congrArg (fun o => [o]) h

theorem Chunks.outlines {ps ps' : List Part} (h : Chunks (Outlined face) k ps ps' k') :
    ps'.map (·.outline face) = ps.map (·.outline face) := by
  induction h with
  | nil => rfl
  | cons h _ ih => rw [List.map_append, ih, h.outline]; rfl

/-- A part with the face of the rebuilt one and the same parts below keeps the outline, as a face
does not show what is below. -/
theorem Outlined.edited {p p' q : Part} (hface : ∀ {p p'}, p'.bare = p.bare → face p' = face p)
    (h : Rebuilt (Outlined face) k p p' k') (hq : face q = face p') (hstub : q.stub = p'.stub)
    (hchildren : q.children = p'.children) : Outlined face k p [q] k' := by
  have hbare := h.bare_eq Outlined.keepsStubs
  refine .one ?_ (Part.outline_eq_iff.2 ⟨hq.trans (hface hbare), ?_⟩)
  · rw [hstub, ← p'.stub_bare, hbare, p.stub_bare]
  · rw [hchildren, h.children.outlines]

theorem Outlined.rebuilt {p p' : Part} (hface : ∀ {p p'}, p'.bare = p.bare → face p' = face p)
    (h : Rebuilt (Outlined face) k p p' k') : Outlined face k p [p'] k' :=
  .edited hface h rfl rfl rfl

/-- It does not matter where the part was met. -/
theorem Outlined.elsewhere {p : Part} {ps : List Part} (h : Outlined face k p ps k') (k₁ k₂ : κ) :
    Outlined face k₁ p ps k₂ := ⟨h.stub, h.outline⟩

end Outlined

end ClassScript
