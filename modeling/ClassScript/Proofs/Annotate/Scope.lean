import ClassScript.Annotate
import ClassScript.Proofs.Annotate.Bindings
/-!
# Functions of an annotated file

Annotation keeps the outline of a file up to marks. Each function of the annotated file goes back to
one of the file before, and binds what that one binds, with the assignments marked in their order
(`SourceFile.annotate_functions`).
-/

namespace ClassScript

/-! ## What outlines tell -/

theorem Binding.ofPart_unstamped (p : Part) (below : List (List Binding)) :
    ofPart p.unstamped below = ofPart p below := by
  cases p with
  | expr e => exact congrArg (below.flatten ++ ·) (ofExpr_bare e)
  | _ => rfl

namespace Part

variable {p p' : Part}

theorem bindings_eq_of_outline (h : p.outline unstamped = p'.outline unstamped) :
    p.bindings = p'.bindings :=
  fold_eq_of_outline (fun below hface => by
    rw [← Binding.ofPart_unstamped, hface, Binding.ofPart_unstamped]) h

theorem ownBindings_eq_of_outline (h : p.outline unstamped = p'.outline unstamped) :
    p.ownBindings = p'.ownBindings := by
  rw [ownBindings, ownBindings, List.flatMap_def, List.flatMap_def,
    map_eq_of_outlines (fun _ _ _ => bindings_eq_of_outline) (outline_eq_iff.1 h).2]

theorem outline_unmarked_of_unstamped (h : p.outline unstamped = p'.outline unstamped) :
    p.outline unmarked = p'.outline unmarked :=
  fold_eq_of_outline (fun below hface => congrArg (Outline.node · below) (congrArg unmark hface)) h

theorem takesParams_unmarked (p : Part) : p.unmarked.takesParams = p.takesParams := by
  cases p with
  | expr e => cases e <;> rfl
  | _ => rfl

theorem bound_unmarked (p : Part) : p.unmarked.bound = p.bound := by
  cases p with
  | expr e => cases e <;> rfl
  | method m => exact List.map_map.trans rfl
  | closure c => exact congrArg (· ++ c.captures.map (·.name)) (List.map_map.trans rfl)
  | _ => rfl

theorem takesParams_eq_of_outline (h : p.outline unmarked = p'.outline unmarked) :
    p.takesParams = p'.takesParams := eq_of_outline takesParams_unmarked h

theorem bound_eq_of_outline (h : p.outline unmarked = p'.outline unmarked) : p.bound = p'.bound :=
  eq_of_outline bound_unmarked h

end Part

/-! ## Passes that change declarations only -/

namespace Annotate

theorem unstamped_congr {p p' : Part} (h : p'.bare = p.bare) : p'.unstamped = p.unstamped :=
  congrArg Part.unstamp h

theorem stampMember_outlines (m : Member) :
    (Part.members [stampMember m]).map (·.outline Part.unstamped) =
      (Part.members [m]).map (·.outline Part.unstamped) := by
  cases m with
  | method d =>
    refine congrArg (fun o => [o]) ?_
    exact Part.outline_eq_iff.2 ⟨rfl, rfl⟩
  | _ => rfl

theorem visibility_outlined : Sound (.plain Unit) visibility (Outlined Part.unstamped)
    fun k e e' k' => Rebuilt (Outlined Part.unstamped) k (.expr e) (.expr e') k' where
  below _ h := h
  array hvs := Rebuilt.array (VisitsItem.mapM hvs _)
  store hv := hv.inOrder _
  expr h := .rebuilt unstamped_congr (h _)
  stmt h := .rebuilt unstamped_congr (h _)
  param h := .rebuilt unstamped_congr (h _)
  closure h := .rebuilt unstamped_congr (h _)
  clause h := .rebuilt unstamped_congr (h _)
  method h := .rebuilt unstamped_congr (h _)
  cls {_ c _} _ := .one rfl <|
    Part.outline_eq_iff.2 ⟨rfl, Part.members_outlines stampMember_outlines c.members⟩
  iface {_ i _} _ := .one rfl <| Part.outline_eq_iff.2
    ⟨rfl, Part.interfaceMembers_outlines stampMember_outlines property?_stampMember i.members⟩

theorem eraseTypes_outlines (m : Member) :
    (Part.members [eraseTypes m]).map (·.outline Part.unstamped) =
      (Part.members [m]).map (·.outline Part.unstamped) := by
  cases m with
  | method d =>
    refine congrArg (fun o => [o]) (Part.outline_eq_iff.2 ⟨?_, ?_⟩)
    · simp only [Part.unstamped, Part.bare, List.map_map]
      rfl
    · simp only [Part.children, List.map_append, List.map_map]
      congr 1
      refine List.map_congr_left fun p _ => ?_
      exact Part.outline_eq_iff.2 ⟨rfl, rfl⟩
  | _ => rfl

theorem scriptApis_outlined (si : String) :
    Sound (.unlessFailed Diagnostic Unit) (scriptApis si) (Outlined Part.unstamped)
      fun k e e' k' => Rebuilt (Outlined Part.unstamped) k (.expr e) (.expr e') k' where
  below _ h := h
  array hvs := Logic.map _ (VisitsItem.mapM hvs _) fun _ _ h => .array h
  store hv := hv.inOrder _
  expr h := Logic.weaken _ (h _) fun _ _ => .rebuilt unstamped_congr
  stmt h := Logic.bind _ (h _) fun _ _ hs => Logic.pure _ (Outlined.rebuilt unstamped_congr hs)
  param h := Logic.weaken _ (h _) fun _ _ => .rebuilt unstamped_congr
  closure h := Logic.weaken _ (h _) fun _ _ => .rebuilt unstamped_congr
  clause h := Logic.weaken _ (h _) fun _ _ => .rebuilt unstamped_congr
  method h := Logic.weaken _ (h _) fun _ _ => .rebuilt unstamped_congr
  cls {_ c _} _ := by
    intro c' hc'
    simp only [scriptApis] at hc'
    split at hc'
    · obtain ⟨apis, -, hc'⟩ := bind_eq_ok.1 hc'
      cases hc'
      exact .one rfl (Part.outline_eq_iff.2 ⟨rfl, Part.members_outlines eraseTypes_outlines c.members⟩)
    · cases hc'
      exact .one rfl rfl
  iface h := Logic.weaken _ (h _) fun _ _ => .rebuilt unstamped_congr

end Annotate

/-! ## Annotation -/

namespace SourceFile

theorem stamp_alike (f : SourceFile) : f.stamp.Alike Part.unstamped f :=
  (Annotate.visibility_outlined.stmts f.stmts ()).chunks.outlines

theorem scriptApis_alike {si : String} {f f' : SourceFile}
    (h : f.through (Annotate.scriptApis si) = .ok f') : f'.Alike Part.unstamped f := by
  obtain ⟨stmts, hstmts, h⟩ := bind_eq_ok.1 h
  cases h
  exact ((Annotate.scriptApis_outlined si).stmts f.stmts () stmts hstmts).chunks.outlines

/-- The file with the declarations marked. -/
def declared (f : SourceFile) : SourceFile :=
  ((f.through Annotate.declarations).run none).run.1

theorem declared_binds (f : SourceFile) : ∃ known, Annotate.BindsAll none (Part.stmts f.stmts)
    (Part.stmts f.declared.stmts) known := by
  obtain ⟨known, -, hstmts⟩ := Annotate.declarations_binds.stmts f.stmts none none rfl
  exact ⟨known, .ofChunks hstmts.chunks⟩

/-- A function of the annotated file and the one it goes back to. -/
theorem annotate_functions {si : String} {f f' : SourceFile} (h : f.annotate si = .ok f') :
    ∀ q' ∈ f'.parts, q'.takesParams = true → ∃ q ∈ f.parts,
      q'.outline Part.unmarked = q.outline Part.unmarked ∧
        q'.ownBindings = Binding.marked q.bound q.ownBindings := by
  intro q' hq' hfun
  have halike : f'.Alike Part.unstamped f.stamp.declared := scriptApis_alike h
  obtain ⟨known, hbinds⟩ := f.stamp.declared_binds
  obtain ⟨q₁, hq₁, ho₁⟩ := halike.exists_part hq'
  have hfun₁ : q₁.takesParams = true := by
    rw [← Part.takesParams_eq_of_outline (Part.outline_unmarked_of_unstamped ho₁), hfun]
  obtain ⟨s, hs, hmem⟩ := List.mem_flatMap.1 hq₁
  obtain ⟨s₂, hs₂, q₂, hq₂, ho₂, hmarked⟩ := hbinds.functions s hs q₁ hmem hfun₁
  obtain ⟨q, hq, ho⟩ := f.stamp_alike.exists_part (List.mem_flatMap.2 ⟨s₂, hs₂, hq₂⟩)
  have hou := Part.outline_unmarked_of_unstamped ho
  refine ⟨q, hq, (Part.outline_unmarked_of_unstamped ho₁).trans (ho₂.trans hou), ?_⟩
  rw [Part.ownBindings_eq_of_outline ho₁, hmarked, Part.bound_eq_of_outline hou,
    Part.ownBindings_eq_of_outline ho]

end SourceFile

end ClassScript
