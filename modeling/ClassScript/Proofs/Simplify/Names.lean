import ClassScript.Proofs.Tree.Throughout
import ClassScript.Simplify.Names
import Mathlib.Tactic.MkIffOfInductiveProp
/-!
# Resolved names

Behind the pass that resolves names, every name of a class, function or constant is fully qualified
(`names_sound`), and behind the next one no import is left (`imports_sound`). Whatever else a shape
asks for is kept, as long as it does not ask for names.
-/

namespace ClassScript

/-! ## The names of a part -/

/-- The names of classes, functions and constants in an expression itself. -/
def Expr.ownNames : Expr → List Name
  | .new _ (.named n) _ | .instanceOf _ _ (.named n) | .classConst _ (.named n) _
  | .staticCall _ (.named n) _ _ | .staticProperty _ (.named n) _ => [n]
  | .call _ (.named n) _ => [n]
  | .const _ n => [n]
  | _ => []

/-- The names in a part itself: those of an expression, the types of the catch clauses of a
statement, the parents of a class or interface. -/
def Part.ownNames : Part → List Name
  | .expr e => e.ownNames
  | .stmt (.tryCatch _ _ cs _) => cs.flatMap (·.types)
  | .cls c => c.parent.toList ++ c.interfaces
  | .iface i => i.parents
  | _ => []

@[simp] theorem Expr.ownNames_bare (e : Expr) : e.bare.ownNames = e.ownNames := by
  cases e with
  | new _ c _ | instanceOf _ _ c | classConst _ c _ | staticCall _ c _ _ | staticProperty _ c _ =>
    cases c <;> rfl
  | call _ c _ => cases c <;> rfl
  | _ => rfl

@[simp] theorem Part.ownNames_bare (p : Part) : p.bare.ownNames = p.ownNames := by
  cases p with
  | expr e => exact e.ownNames_bare
  | stmt s =>
    cases s with
    | tryCatch _ _ cs _ =>
      simp only [bare, Stmt.bare, ownNames, List.flatMap_map]
      rfl
    | _ => rfl
  | _ => rfl

def Name.IsGlobal (n : Name) : Prop := n.kind = .fullyQualified

theorem Name.isGlobal_global (raw : String) : (Name.global raw).IsGlobal := rfl

/-- The type of a parameter. -/
def Part.ownType? : Part → Option TypeHint
  | .param p => p.type
  | _ => none

@[simp] theorem Part.ownType?_bare (p : Part) : p.bare.ownType? = p.ownType? := by cases p <;> rfl

/-- The names of the part are fully qualified, and so is its type unless it is a scalar one. -/
@[mk_iff]
structure Part.Resolved (p : Part) : Prop where
  names : ∀ n ∈ p.ownNames, n.IsGlobal
  type : ∀ t ∈ p.ownType?, t.name.isScalar = true ∨ t.name.IsGlobal

theorem Part.resolved_bare (p : Part) : p.bare.Resolved ↔ p.Resolved := by
  simp only [resolved_iff, ownNames_bare, ownType?_bare]

/-! ## What names mean -/

namespace Scope

variable (s : Scope)

theorem isGlobal_resolveClass (n : Name) : (s.resolveClass n).IsGlobal := by
  unfold resolveClass
  split
  · assumption
  · split <;> rfl

theorem isGlobal_resolveFunction (n : Name) : (s.resolveFunction n).IsGlobal := by
  unfold resolveFunction
  split
  · rfl
  · exact s.isGlobal_resolveClass n

theorem resolveTypeName_scalar_or_global (n : Name) :
    (s.resolveTypeName n).isScalar = true ∨ (s.resolveTypeName n).IsGlobal := by
  unfold resolveTypeName
  split
  · exact .inl (by assumption)
  · refine .inr ?_
    split
    · split
      · rfl
      · exact s.isGlobal_resolveClass n
    · exact s.isGlobal_resolveClass n

theorem resolveExpr_ownNames (e : Expr) : ∀ n ∈ (s.resolveExpr e).ownNames, n.IsGlobal := by
  cases e with
  | new _ c _ | instanceOf _ _ c | classConst _ c _ | staticCall _ c _ _ | staticProperty _ c _ =>
    cases c <;> simp [resolveExpr, resolveRef, Expr.ownNames, isGlobal_resolveClass]
  | call _ c _ => cases c <;> simp [resolveExpr, Expr.ownNames, isGlobal_resolveFunction]
  | const _ n => simp [resolveExpr, Expr.ownNames, isGlobal_resolveFunction]
  | _ => simp [resolveExpr, Expr.ownNames]

theorem resolveExpr_children (e : Expr) :
    (Part.expr (s.resolveExpr e)).children = (Part.expr e).children := by
  cases e with
  | new _ c _ | instanceOf _ _ c | classConst _ c _ | staticCall _ c _ _ | staticProperty _ c _ =>
    cases c <;> rfl
  | call _ c _ => cases c <;> rfl
  | _ => rfl

theorem resolveExpr_stub (e : Expr) : (s.resolveExpr e).stub = e.stub := by
  cases e with
  | call _ c _ => cases c <;> rfl
  | _ => rfl

end Scope

/-! ## The passes -/

/-- The shape does not ask for names. -/
structure Nameless (r : Shape Unit) : Prop where
  expr : ∀ {b e} (s : Scope), r.holds b (.expr e) → r.holds b (.expr (s.resolveExpr e))
  stmt : ∀ {b st} (s : Scope), r.holds b (.stmt st) → r.holds b (.stmt (s.resolveStmt st))
  clause : ∀ {b c} (s : Scope), r.holds b (.clause c) → r.holds b (.clause (s.resolveCatch c))
  param : ∀ {b p} t, r.holds b (.param p) → r.holds b (.param { p with type := t })
  cls : ∀ {b c} q pa is, r.holds b (.cls c) →
    r.holds b (.cls { c with qualified := q, parent := pa, interfaces := is })
  iface : ∀ {b i} q ps, r.holds b (.iface i) → r.holds b (.iface { i with qualified := q, parents := ps })

/-- The shape with resolved names. -/
def Shape.resolved {β : Type} (r : Shape β) : Shape β :=
  r.and (fun _ => Part.Resolved) fun _ => Part.resolved_bare

namespace Simplify

variable {r : Shape Unit} (hr : Nameless r)

include hr

theorem resolveCatch_throughout (s : Scope) {c : Catch} (h : Throughout r.resolved () (.clause c)) :
    Throughout r.resolved () (.clause (s.resolveCatch c)) :=
  throughout_iff.2 ⟨⟨hr.clause s h.head.1, ⟨nofun, nofun⟩⟩, (throughout_iff.1 h).2⟩

theorem resolveStmt_throughout (s : Scope) {st : Stmt} (h : r.holds () (.stmt st))
    (hcs : ∀ c ∈ (Part.stmt st).children, Throughout r.resolved () c) :
    Throughout r.resolved () (.stmt (s.resolveStmt st)) := by
  cases st with
  | tryCatch p b cs f =>
    refine throughout_iff.2 ⟨⟨hr.stmt s h, ⟨fun n hn => ?_, by rintro _ ⟨⟩⟩⟩, fun c hc => ?_⟩
    · obtain ⟨c, hc, hn⟩ := List.mem_flatMap.1 hn
      obtain ⟨c, -, rfl⟩ := List.mem_map.1 hc
      obtain ⟨m, -, rfl⟩ := List.mem_map.1 hn
      exact s.isGlobal_resolveClass m
    · simp only [Scope.resolveStmt, Part.children, Part.ofStmt, List.mem_append, List.mem_map] at hc hcs
      rcases hc with (hc | ⟨_, ⟨c, hc, rfl⟩, rfl⟩) | hc
      · exact hcs c (.inl (.inl hc))
      · exact resolveCatch_throughout hr s (hcs _ (.inl (.inr ⟨c, hc, rfl⟩)))
      · exact hcs c (.inr hc)
  | _ => exact throughout_iff.2 ⟨⟨hr.stmt s h, ⟨by rintro _ ⟨⟩, by rintro _ ⟨⟩⟩⟩, hcs⟩

omit hr in
theorem unnamed {p : Part} (hn : p.ownNames = []) (ht : p.ownType? = none) (h : r.holds () p) :
    r.resolved.holds () p := ⟨h, ⟨by simp [hn], by simp [ht]⟩⟩

/-- Names are resolved behind the pass. -/
theorem names_sound : Sound (.anyState Scope Unit) names (Turned r r.resolved)
    fun k e e' k' => Rebuilt (Turned r r.resolved) k (.expr e) (.expr e') k' where
  below _ h := h
  array hvs := Logic.map _ (VisitsItem.mapM hvs _) fun _ _ h => .array h
  store hv := hv.inOrder _
  expr h := Logic.bind _ (h _) fun e' _ he' s =>
    Turned.expr he' (s.resolveExpr_stub e') fun hold hcs => throughout_expr.2
      ⟨⟨hr.expr s hold, ⟨s.resolveExpr_ownNames e', nofun⟩⟩, s.resolveExpr_children e' ▸ hcs⟩
  stmt {_ st _} h := by
    cases st with
    | nsBlock _ n _ _ =>
      exact fun s => .rebuilt (h _ { s with namespaceName := n, aliases := [] }) rfl (unnamed rfl rfl)
    | imports _ is => exact fun s => .rebuilt (h _ (is.foldl Scope.importing s)) rfl (unnamed rfl rfl)
    | _ =>
      exact Logic.bind _ (h _) fun _ _ hst s => Carried.editedStmts hst fun _ hold hcs => by
        rintro _ (_ | ⟨_, ⟨⟩⟩)
        exact resolveStmt_throughout hr s hold hcs
  param {_ p _} h s := Carried.edited (h _ s) rfl (fun _ => trivial) fun _ hold hcs => by
    refine throughout_iff.2 ⟨⟨hr.param _ hold, ⟨nofun, fun t ht => ?_⟩⟩, hcs⟩
    obtain ⟨t, -, rfl⟩ := Option.map_eq_some_iff.1 ht
    exact s.resolveTypeName_scalar_or_global t.name
  closure h := Logic.weaken _ (h _) fun _ _ hc => .rebuilt hc rfl (unnamed rfl rfl)
  clause h := Logic.weaken _ (h _) fun _ _ hc => .rebuilt hc rfl (unnamed rfl rfl)
  method h := Logic.weaken _ (h _) fun _ _ hm => .rebuilt hm rfl (unnamed rfl rfl)
  cls {_ c _} h s := Carried.edited (h _ _) rfl (fun _ => trivial) fun _ hold hcs => by
    refine throughout_iff.2 ⟨⟨hr.cls _ _ _ hold, ⟨fun n hn => ?_, nofun⟩⟩, hcs⟩
    rcases List.mem_append.1 hn with hn | hn
    · obtain ⟨m, -, rfl⟩ := Option.map_eq_some_iff.1 (Option.mem_toList.1 hn)
      exact s.isGlobal_resolveClass m
    · obtain ⟨m, -, rfl⟩ := List.mem_map.1 hn
      exact s.isGlobal_resolveClass m
  iface {_ i _} h s := Carried.edited (h _ _) rfl (fun _ => trivial) fun _ hold hcs => by
    refine throughout_iff.2 ⟨⟨hr.iface _ _ hold, ⟨fun n hn => ?_, nofun⟩⟩, hcs⟩
    obtain ⟨m, -, rfl⟩ := List.mem_map.1 hn
    exact s.isGlobal_resolveClass m

end Simplify

/-! ## Imports -/

def Part.NoImport : Part → Prop
  | .stmt (.imports ..) => False
  | _ => True

theorem Part.noImport_bare (p : Part) : p.bare.NoImport ↔ p.NoImport := by
  cases p with
  | stmt s => cases s <;> rfl
  | _ => rfl

/-- The shape without imports. -/
def Shape.noImports {β : Type} (r : Shape β) : Shape β :=
  r.and (fun _ => Part.NoImport) fun _ => Part.noImport_bare

/-- Imports are gone behind the pass. -/
theorem Simplify.imports_sound {β : Type} (r : Shape β) :
    Sound (.plain Unit) imports (Turned r r.noImports)
      fun k e e' k' => Rebuilt (Turned r r.noImports) k (.expr e) (.expr e') k' where
  below _ h := h
  array hvs := Rebuilt.array (VisitsItem.mapM hvs _)
  store hv := hv.inOrder _
  expr h := .rebuilt (h _) rfl fun hold => ⟨hold, trivial⟩
  stmt {_ st _} h := by
    cases st with
    | imports => exact .stmts fun _ _ => nofun
    | _ => exact .rebuilt (h _) rfl fun hold => ⟨hold, trivial⟩
  param h := .rebuilt (h _) rfl fun hold => ⟨hold, trivial⟩
  closure h := .rebuilt (h _) rfl fun hold => ⟨hold, trivial⟩
  clause h := .rebuilt (h _) rfl fun hold => ⟨hold, trivial⟩
  method h := .rebuilt (h _) rfl fun hold => ⟨hold, trivial⟩
  cls h := .rebuilt (h _) rfl fun hold => ⟨hold, trivial⟩
  iface h := .rebuilt (h _) rfl fun hold => ⟨hold, trivial⟩

end ClassScript
