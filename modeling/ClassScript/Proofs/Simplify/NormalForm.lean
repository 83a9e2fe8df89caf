import ClassScript.Proofs.Simplify.Arrays
import ClassScript.Proofs.Simplify.Guard
import ClassScript.Proofs.Simplify.Initialise
import ClassScript.Proofs.Simplify.Owner
import ClassScript.Simplify
/-!
# The normal form of a file

Every part of a simplified file is normal, and types are left only where the pipeline keeps them
(`simplify_normal`). Each pass settles its own part of that and keeps what those before it settled.
-/

namespace ClassScript

/-- No imports, arrays, loops over them, compound assignments, `self` and `parent`; every name is
fully qualified. -/
structure Part.Normal (p : Part) : Prop where
  noImport : p.NoImport
  noArray : p.NoArray
  noCompound : p.NoCompound
  noOwner : p.NoOwner
  names : ∀ n ∈ p.ownNames, n.IsGlobal

/-- Whether the types of parameters are kept below a part. A class decides for all in it. -/
def Pipeline.keeps (pipeline : Pipeline) (scriptInterface : String) (kept : Bool) : Part → Bool
  | .cls c => pipeline == .full && c.lists scriptInterface
  | _ => kept

section Keeps

variable (pipeline : Pipeline) (si : String) (kept : Bool)

theorem Pipeline.keeps_expr (e : Expr) : pipeline.keeps si kept (.expr e) = kept := rfl

theorem Pipeline.keeps_stmt (st : Stmt) : pipeline.keeps si kept (.stmt st) = kept := rfl

theorem Pipeline.keeps_param (q : Param) : pipeline.keeps si kept (.param q) = kept := rfl

theorem Pipeline.keeps_bare (p : Part) : pipeline.keeps si kept p.bare = pipeline.keeps si kept p := by
  cases p <;> rfl

end Keeps

namespace Simplify

/-! ## The passes up to the types

They keep any shape that does not mind what they put into the tree. -/

/-- The shape is kept by the passes up to the types. -/
structure Stable (r : Shape Unit) : Prop where
  names : Nameless r
  owners : AdmitsOwners r
  plain : AdmitsPlain r
  guards : AdmitsGuards r

section Stable

variable {r : Shape Unit} (hr : Stable r)

include hr

theorem Stable.admitsOwners : AdmitsOwners r.resolved.noImports where
  expr hres h := ⟨⟨hr.owners.expr hres h.1.1, ⟨hres.ownNames h.1.2.names, nofun⟩⟩, trivial⟩
  inherited b p := ⟨⟨hr.owners.inherited b p, ⟨nofun, nofun⟩⟩, trivial⟩

theorem Stable.admitsPlain : AdmitsPlain r.resolved.noImports.noOwners where
  assign v h := ⟨⟨⟨hr.plain.assign v h.1.1.1, ⟨nofun, nofun⟩⟩, trivial⟩, ⟨nofun, nofun⟩⟩
  stepped v h := ⟨⟨⟨hr.plain.stepped v h.1.1.1, ⟨nofun, nofun⟩⟩, trivial⟩, ⟨nofun, nofun⟩⟩
  binary b p op l r' := ⟨⟨⟨hr.plain.binary b p op l r', ⟨nofun, nofun⟩⟩, trivial⟩, ⟨nofun, nofun⟩⟩
  one b p := ⟨⟨⟨hr.plain.one b p, ⟨nofun, nofun⟩⟩, trivial⟩, ⟨nofun, nofun⟩⟩

end Stable

/-- The shape of a file with plain assignments and all references resolved. -/
def plainShape (r : Shape Unit) : Shape Unit := r.resolved.noImports.noOwners.noCompounds

theorem plainShape_holds {r : Shape Unit} {p : Part} (h : r.holds () p) (hn : p.ownNames = [])
    (ht : p.ownType? = none) (hi : p.NoImport) (ho : p.NoOwner) (hc : p.NoCompound) :
    (plainShape r).holds () p := ⟨⟨⟨⟨h, ⟨by simp [hn], by simp [ht]⟩⟩, hi⟩, ho⟩, hc⟩

theorem resolved_throughout {r : Shape Unit} (hr : Stable r) {ss ss' : List Stmt}
    (h : resolved ss = .ok ss') (hss : ∀ s ∈ ss, Throughout r () (.stmt s)) :
    ∀ s ∈ ss', Throughout (plainShape r) () (.stmt s) := by
  obtain ⟨owned, howned, h⟩ := bind_eq_ok.1 h
  cases h
  have hnames := Carried.ofStmts ((names_sound hr.names).stmts ss () {}) trivial hss
  have himports := Carried.ofStmts ((imports_sound r.resolved).stmts _ ()) trivial hnames
  have howners := Carried.ofStmts ((owners_sound hr.admitsOwners).stmts _ {} _ howned) trivial himports
  exact Carried.ofStmts ((compound_sound hr.admitsPlain).stmts owned ()) trivial howners

/-- The shape in which the passes for the types are met: a class decides whether types are kept. -/
def keepingShape (pipeline : Pipeline) (si : String) (r : Shape Unit) : Shape Bool where
  enter := pipeline.keeps si
  holds _ p := (plainShape r).holds () p
  enter_expr := pipeline.keeps_expr si
  enter_stmt := pipeline.keeps_stmt si
  enter_param := pipeline.keeps_param si
  enter_bare := pipeline.keeps_bare si
  holds_bare _ p := (plainShape r).holds_bare () p

theorem keepsScripts (si : String) (r : Shape Unit) :
    KeepsScripts (keepingShape .full si r) id si where
  cls := rfl
  other {_ p} hp := by
    cases p with
    | cls c => exact absurd rfl (hp c)
    | _ => rfl

theorem Stable.admitsGuards {r : Shape Unit} (hr : Stable r) (pipeline : Pipeline) (si : String) :
    AdmitsGuards (keepingShape pipeline si r) where
  untyped h := ⟨⟨⟨⟨hr.guards.untyped h.1.1.1.1, ⟨nofun, nofun⟩⟩, trivial⟩, trivial⟩, trivial⟩
  branch := plainShape_holds hr.guards.branch rfl rfl trivial trivial trivial
  throwValue := plainShape_holds hr.guards.throwValue rfl rfl trivial trivial trivial
  error := ⟨⟨⟨⟨hr.guards.error, ⟨by rintro _ (_ | ⟨_, ⟨⟩⟩); rfl, nofun⟩⟩, trivial⟩, ⟨nofun, nofun⟩⟩, trivial⟩
  message := plainShape_holds hr.guards.message rfl rfl trivial ⟨nofun, nofun⟩ trivial
  binary := plainShape_holds hr.guards.binary rfl rfl trivial ⟨nofun, nofun⟩ trivial
  unary := plainShape_holds hr.guards.unary rfl rfl trivial ⟨nofun, nofun⟩ trivial
  isset := plainShape_holds hr.guards.isset rfl rfl trivial ⟨nofun, nofun⟩ trivial
  subject := plainShape_holds hr.guards.subject rfl rfl trivial ⟨nofun, nofun⟩ trivial
  test := ⟨⟨⟨⟨hr.guards.test, ⟨by rintro _ (_ | ⟨_, ⟨⟩⟩); rfl, nofun⟩⟩, trivial⟩, ⟨nofun, nofun⟩⟩, trivial⟩
  isInstance h ht hs := by
    have hglobal := (h.1.1.1.2.type _ ht).resolve_left (by simp [hs])
    refine ⟨⟨⟨⟨hr.guards.isInstance h.1.1.1.1 ht hs, ⟨?_, nofun⟩⟩, trivial⟩, ⟨nofun, nofun⟩⟩, trivial⟩
    rintro _ (_ | ⟨_, ⟨⟩⟩)
    exact hglobal

theorem types_throughout {r : Shape Unit} (hr : Stable r) (pipeline : Pipeline) (si : String)
    {ss : List Stmt} (hss : ∀ s ∈ ss, Throughout (plainShape r) () (.stmt s)) :
    ∀ s ∈ types pipeline si ss, Throughout ((keepingShape pipeline si r).untyped id) false (.stmt s) := by
  have hkeeping : ∀ s ∈ ss, Throughout (keepingShape pipeline si r) false (.stmt s) := fun s hs =>
    (hss s hs).imp (fun _ _ => True) (fun _ _ => trivial) (fun _ h => h) trivial
  cases pipeline with
  | full =>
    have hguards := (typeGuards_sound (hr.admitsGuards .full si) (keepsScripts si r)).stmts ss {}
    exact fun s hs => Carried.ofStmts hguards rfl hkeeping s hs
  | reduced =>
    exact Carried.ofStmts ((typeless_sound (hr.admitsGuards .reduced si).untyped).stmts ss ())
      trivial hkeeping

/-! ## Normal files -/

/-- Nothing is asked of any part. -/
def anyShape : Shape Unit where
  enter _ _ := ()
  holds _ _ := True
  enter_expr _ _ := rfl
  enter_stmt _ _ := rfl
  enter_param _ _ := rfl
  enter_bare _ _ := rfl
  holds_bare _ _ := Iff.rfl

theorem stable_anyShape : Stable anyShape := by
  constructor <;> constructor <;> intros <;> trivial

/-- The shape of a simplified file. -/
def normalShape (pipeline : Pipeline) (si : String) : Shape Bool :=
  ((keepingShape pipeline si anyShape).untyped id).noArrays

theorem normalShape_holds {pipeline : Pipeline} {si : String} {b : Bool} {p : Part}
    (hn : ∀ n ∈ p.ownNames, n.IsGlobal) (ht : p.ownType? = none) (hi : p.NoImport)
    (ho : p.NoOwner) (hc : p.NoCompound) (ha : p.NoArray) : (normalShape pipeline si).holds b p :=
  ⟨⟨⟨⟨⟨⟨trivial, ⟨hn, by simp [ht]⟩⟩, hi⟩, ho⟩, hc⟩, fun _ => ht⟩, ha⟩

section Normal

variable (pipeline : Pipeline) (si : String)

theorem admitsCallback_normal :
    AdmitsCallback (fun _ => True) (normalShape pipeline si) (normalShape pipeline si) where
  enter := rfl
  inside _ _ := trivial
  kept _ _ _ h := h
  expr {_ e} _ h := by
    cases e with
    | assign p t v d =>
      cases t with
      | «variable» => exact normalShape_holds nofun rfl trivial ⟨nofun, nofun⟩ trivial trivial
      | _ => exact h
    | _ => exact h
  ret _ := normalShape_holds nofun rfl trivial trivial trivial trivial
  stop _ := normalShape_holds nofun rfl trivial ⟨nofun, nofun⟩ trivial trivial
  closure _ h := h

theorem admitsArrays_normal :
    AdmitsArrays ((keepingShape pipeline si anyShape).untyped id) (normalShape pipeline si) where
  enter := rfl
  kept ha h := ⟨h, ha⟩
  call := normalShape_holds nofun rfl trivial ⟨nofun, nofun⟩ trivial trivial
  array := normalShape_holds (by rintro _ (_ | ⟨_, ⟨⟩⟩); rfl) rfl trivial ⟨nofun, nofun⟩ trivial trivial
  statement := normalShape_holds nofun rfl trivial trivial trivial trivial
  function := normalShape_holds nofun rfl trivial ⟨nofun, nofun⟩ trivial trivial
  callback _ := normalShape_holds nofun rfl trivial trivial trivial trivial
  binding h := normalShape_holds nofun h.type trivial trivial trivial trivial
  body _ h := callbackBody_throughout (admitsCallback_normal pipeline si) trivial h

theorem admitsInitialisers_normal : AdmitsInitialisers (normalShape pipeline si) := by
  intro b p pos name _
  refine throughout_stmt.2 ⟨normalShape_holds nofun rfl trivial trivial trivial trivial, ?_⟩
  rintro _ (_ | ⟨_, ⟨⟩⟩)
  refine throughout_expr.2 ⟨normalShape_holds nofun rfl trivial ⟨nofun, nofun⟩ trivial trivial, ?_⟩
  rintro _ (_ | ⟨_, _ | ⟨_, ⟨⟩⟩⟩)
  all_goals
    exact throughout_expr.2 ⟨normalShape_holds nofun rfl trivial ⟨nofun, nofun⟩ trivial trivial, nofun⟩

end Normal

/-- Each pass settles its part of the normal form. -/
theorem statements_throughout {pipeline : Pipeline} {si : String} {ss out : List Stmt}
    (h : statements pipeline si ss = .ok out) :
    ∀ s ∈ out, Throughout (normalShape pipeline si) false (.stmt s) := by
  obtain ⟨resolved, hresolved, h⟩ := bind_eq_ok.1 h
  obtain ⟨listed, hlisted, h⟩ := bind_eq_ok.1 h
  cases h
  have hany : ∀ s ∈ ss, Throughout anyShape () (.stmt s) := fun _ _ _ _ => trivial
  have htypes := types_throughout stable_anyShape pipeline si
    (resolved_throughout stable_anyShape hresolved hany)
  have harrays := Carried.ofStmts
    ((arrays_sound (admitsArrays_normal pipeline si)).stmts _ () listed hlisted) trivial htypes
  exact Carried.ofStmts ((initialisers_sound (admitsInitialisers_normal pipeline si)).stmts listed ())
    trivial harrays

end Simplify

theorem SourceFile.simplify_throughout {pipeline : Pipeline} {si : String} {f out : SourceFile}
    (h : f.simplify pipeline si = .ok out) :
    ∀ s ∈ out.stmts, Throughout (Simplify.normalShape pipeline si) false (.stmt s) := by
  unfold simplify at h
  split at h
  · next hok =>
    cases h
    exact Simplify.statements_throughout hok
  · cases h

/-- Every part of a simplified file is normal, and no parameter has a type but inside of a class
that keeps them. -/
theorem SourceFile.simplify_normal {pipeline : Pipeline} {si : String} {f out : SourceFile}
    (h : f.simplify pipeline si = .ok out) :
    (∀ q ∈ out.parts, q.Normal) ∧
      ∀ x ∈ out.within (pipeline.keeps si) false, x.1 = false → x.2.ownType? = none := by
  have hall := simplify_throughout h
  constructor
  · intro q hq
    obtain ⟨_, hp, hq⟩ := List.mem_flatMap.1 hq
    obtain ⟨s, hs, rfl⟩ := List.mem_map.1 hp
    exact (hall s hs).all (fun h => ⟨h.1.1.1.1.2, h.2, h.1.1.2, h.1.1.1.2, h.1.1.1.1.1.2.names⟩) q hq
  · intro x hx
    obtain ⟨_, hp, hx⟩ := List.mem_flatMap.1 hx
    obtain ⟨s, hs, rfl⟩ := List.mem_map.1 hp
    exact (hall s hs x hx).1.2

/-! A file with an import and two classes that use all that is simplified; the first of them lists
the script interface. -/

/-- Adds up what it gets, with an element, a loop, a compound assignment and `self`. -/
def sumMethod : Method where
  name := "sum"
  params := [⟨"n", some ⟨⟨["int"], .unqualified⟩, false⟩, none, false, false, false, .unknown⟩]
  body := some
    [.expression (.assign .unknown (.index .unknown (.var .unknown "xs") none)
      (.classConst .unknown .self "LIMIT") none),
    .foreach .unknown (.var .unknown "xs") none (.var .unknown "x") false
      [.expression (.assignOp .unknown .add (.var .unknown "n") (.var .unknown "x"))]]
  byRefReturn := false
  modifiers := {}
  resolved := none
  pos := .unknown

def sumClass (interfaces : List Name) : Class where
  name := "Sum"
  parent := none
  interfaces
  members := [.method sumMethod]
  isAbstract := false
  isFinal := false
  pos := .unknown
  qualified := none
  scriptApis := none

def sumFile : SourceFile where
  path := "sum"
  stmts :=
    [.imports .unknown [⟨⟨["Lib", "Api"], .qualified⟩, none⟩],
    .classDecl (sumClass [⟨["Api"], .unqualified⟩]),
    .nsBlock .unknown (some ⟨["Plain"], .unqualified⟩) [.classDecl (sumClass [])] true]

theorem SourceFile.sumFile_normal : ∃ out, sumFile.simplify .full "Lib\\Api" = .ok out ∧
    (∀ q ∈ out.parts, q.Normal) ∧
      ∀ x ∈ out.within (Pipeline.full.keeps "Lib\\Api") false, x.1 = false → x.2.ownType? = none := by
  have hok : ∃ out, sumFile.simplify .full "Lib\\Api" = .ok out := ⟨_, rfl⟩
  obtain ⟨out, h⟩ := hok
  exact ⟨out, h, simplify_normal h⟩

end ClassScript
