import ClassScript.Proofs.Tree.Through
import ClassScript.Simplify.Names
/-!
# Namespaces keep to themselves

Resolving the names of a namespace starts without imports and ends in the scope it started from
(`nsBlock_isolated`). The pass hands one scope through the whole tree, so this rests on what every part leaves of
it: the namespace and the class around a place are the same behind each part, and only imports may have come in
(`names_frame`).
-/

namespace ClassScript

/-- The namespace and the class around a place. -/
abbrev Frame := Option Name × Option String

def Scope.frame (s : Scope) : Frame := (s.namespaceName, s.owner)

namespace Simplify

/-- Of what an action gives in any scope with a known frame. -/
abbrev framed : Logic (StateM Scope) Frame := .tracking fun k s => s.frame = k

section Frame

variable {α : Type} {act : StateM Scope α} {k : Frame} {Q : α → Prop}

theorem frame_importing (s : Scope) (is : List Import) : (is.foldl Scope.importing s).frame = s.frame := by
  induction is generalizing s with
  | nil => rfl
  | cons i is ih => exact ih (s.importing i)

theorem gives_inNamespace (n : Option Name) (h : framed.Gives (n, k.2) act fun a k' => k' = (n, k.2) ∧ Q a) :
    framed.Gives k (inNamespace n act) fun a k' => k' = k ∧ Q a := by
  rintro s rfl
  obtain ⟨_, hframe, rfl, hQ⟩ := h { s with namespaceName := n, aliases := [] } rfl
  exact ⟨s.frame, congrArg (s.namespaceName, ·.2) hframe, rfl, hQ⟩

theorem gives_inside (owner : String)
    (h : framed.Gives (k.1, some owner) act fun a k' => k' = (k.1, some owner) ∧ Q a) :
    framed.Gives k (inside owner act) fun a k' => k' = k ∧ Q a := by
  rintro s rfl
  obtain ⟨_, hframe, rfl, hQ⟩ := h { s with owner := some owner } rfl
  exact ⟨s.frame, congrArg (·.1, s.owner) hframe, rfl, hQ⟩

end Frame

/-- Every part leaves the namespace and the class around it. -/
theorem names_frame : Sound framed names (fun k _ _ k' => k' = k) fun k _ _ k' => k' = k where
  below _ h := h.children.same id
  array hvs := Logic.map _ (VisitsItem.mapM hvs _) fun _ _ h => (Change.items h).same id
  store hv := Logic.weaken _ (hv.inOrder _) fun _ _ h => h.children.same id
  expr h := Logic.bind _ (h _) fun _ k₁ hk s hs => ⟨k₁, hs, hk⟩
  stmt {k st act} h := by
    cases st with
    | nsBlock p n b br =>
      have hblock := gives_inNamespace (Q := fun _ => True) n <|
        Logic.weaken _ (h (n, k.2)) fun _ _ hst => ⟨hst.children.same id, trivial⟩
      exact Logic.bind _ hblock fun _ _ hk => Logic.pure _ hk.1
    | imports p is =>
      intro s hs
      obtain ⟨k₁, hk₁, hst⟩ := h k (is.foldl Scope.importing s) ((frame_importing s is).trans hs)
      exact ⟨k₁, hk₁, hst.children.same id⟩
    | _ => exact Logic.bind _ (h _) fun _ k₁ hst s hs => ⟨k₁, hs, hst.children.same id⟩
  param h s hs := by
    obtain ⟨k₁, hk₁, hp⟩ := h _ s hs
    exact ⟨k₁, hk₁, hp.children.same id⟩
  closure h := Logic.weaken _ (h _) fun _ _ hc => hc.children.same id
  clause h := Logic.weaken _ (h _) fun _ _ hc => hc.children.same id
  method h := Logic.weaken _ (h _) fun _ _ hm => hm.children.same id
  cls {k c _} h s hs := by
    have hclass := gives_inside (Q := fun _ => True) (s.qualify c.name) <|
      Logic.weaken _ (h (k.1, some (s.qualify c.name))) fun _ _ hc => ⟨hc.children.same id, trivial⟩
    obtain ⟨k₁, hk₁, hk, -⟩ := hclass s hs
    exact ⟨k₁, hk₁, hk⟩
  iface {k i _} h s hs := by
    have hinterface := gives_inside (Q := fun _ => True) (s.qualify i.name) <|
      Logic.weaken _ (h (k.1, some (s.qualify i.name))) fun _ _ hi => ⟨hi.children.same id, trivial⟩
    obtain ⟨k₁, hk₁, hk, -⟩ := hinterface s hs
    exact ⟨k₁, hk₁, hk⟩

/-- Behind statements the namespace and the class are those before them. -/
theorem frame_stmts (ss : List Stmt) (s : Scope) : ((stmtsThrough names ss).run s).2.frame = s.frame := by
  obtain ⟨_, hframe, hstmts⟩ := names_frame.stmts ss s.frame s rfl
  cases hstmts.chunks.same id
  exact hframe

/-! ## Namespaces -/

theorem run_stmts_cons (st : Stmt) (ss : List Stmt) (s : Scope) : (stmtsThrough names (st :: ss)).run s =
    let x := (st.through names).run s
    let y := (stmtsThrough names ss).run x.2
    (x.1 ++ y.1, y.2) := rfl

theorem run_stmts_append (ss ts : List Stmt) (s : Scope) : (stmtsThrough names (ss ++ ts)).run s =
    let x := (stmtsThrough names ss).run s
    let y := (stmtsThrough names ts).run x.2
    (x.1 ++ y.1, y.2) := by
  induction ss generalizing s with
  | nil => rfl
  | cons st ss ih => simp only [List.cons_append, run_stmts_cons, ih, List.append_assoc]

/-- A namespace is resolved on its own, in the class around it, and leaves the scope as it found it. -/
theorem run_nsBlock (pos : Position) (name : Option Name) (body : List Stmt) (braced : Bool) (s : Scope) :
    ((Stmt.nsBlock pos name body braced).through names).run s =
      let inner := (stmtsThrough names body).run { namespaceName := name, owner := s.owner }
      ([.nsBlock pos name inner.1 braced], s) := by
  have hframe := frame_stmts body { namespaceName := name, owner := s.owner }
  exact Prod.ext rfl (congrArg (fun k : Frame => Scope.mk s.namespaceName s.aliases k.2) hframe)

/-- A namespace is resolved in the same way in all scopes with the same class around it, and it leaves the scope as
it found it. So whatever stands before it and behind it is resolved as if it were not there. -/
theorem nsBlock_isolated {s s' : Scope} (h : s'.owner = s.owner) (pos : Position) (name : Option Name)
    (body : List Stmt) (braced : Bool) :
    let block := Stmt.nsBlock pos name body braced
    (block.through names).run s = (((block.through names).run s').1, s) ∧
    ∀ before after : List Stmt,
      let x := (stmtsThrough names before).run s
      let y := (stmtsThrough names after).run x.2
      (stmtsThrough names (before ++ after)).run s = (x.1 ++ y.1, y.2) ∧
      (stmtsThrough names (before ++ block :: after)).run s =
        (x.1 ++ (((block.through names).run s').1 ++ y.1), y.2) := by
  intro block
  refine ⟨?_, fun before after => ⟨run_stmts_append before after s, ?_⟩⟩
  · rw [run_nsBlock, run_nsBlock, h]
  · have howner : ((stmtsThrough names before).run s).2.owner = s.owner := congrArg Prod.snd (frame_stmts before s)
    rw [run_stmts_append]
    simp only [run_stmts_cons, block, run_nsBlock, howner, h]

/-- A namespace with an import, in a scope where the same word is imported with another meaning. -/
theorem importingBlock_isolated :
    let block := Stmt.nsBlock .unknown (some ⟨["App"], .unqualified⟩)
      [.imports .unknown [⟨⟨["Lib", "Base"], .qualified⟩, some "Root"⟩],
        .expression (.new .unknown (.named ⟨["Root"], .unqualified⟩) [])] true
    let s : Scope := { namespaceName := some ⟨["Other"], .unqualified⟩, aliases := [("root", .global "Old")] }
    (block.through names).run s = (((block.through names).run {}).1, s) ∧
      ((block.through names).run s).1 = [.nsBlock .unknown (some ⟨["App"], .unqualified⟩)
        [.imports .unknown [⟨⟨["Lib", "Base"], .qualified⟩, some "Root"⟩],
          .expression (.new .unknown (.named ⟨["Lib", "Base"], .fullyQualified⟩) [])] true] := by
  intro block s
  have howner : ({} : Scope).owner = s.owner := rfl
  exact ⟨(nsBlock_isolated howner _ _ _ _).1, rfl⟩

end Simplify

end ClassScript
