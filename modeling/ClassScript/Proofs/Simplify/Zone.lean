import ClassScript.Proofs.Annotate.Bindings
import ClassScript.Proofs.Simplify.NormalForm
/-!
# Assignments in functions and in callbacks

The grammar marks no assignment. In a simplified file those in an iteration callback are marked as no
declarations and all others are still unmarked (`SourceFile.simplify_zones`). A callback is a zone of
its own until another closure starts; what a class does that is declared in a callback is left open.
-/

namespace ClassScript

def Expr.isMadeUp : Expr → Bool
  | .variable _ _ synthetic => synthetic
  | _ => false

/-! ## What the grammar makes -/

/-- What a program text can say: nothing assigns to a made-up variable, no assignment is marked and
no closure is an iteration callback. -/
def Part.Untouched : Part → Prop
  | .expr (.assign _ t _ d) => t.isMadeUp = false ∧ d = none
  | .expr (.assignOp _ _ t _) | .expr (.step _ _ t) => t.isMadeUp = false
  | .closure c => c.isIteration = false
  | _ => True

theorem Part.untouched_bare (p : Part) : p.bare.Untouched ↔ p.Untouched := by
  cases p with
  | expr e =>
    cases e with
    | assign _ t _ _ | assignOp _ _ t _ | step _ _ t => cases t <;> rfl
    | _ => rfl
  | _ => rfl

/-- All parts are as the grammar makes them. -/
def untouchedShape : Shape Unit where
  enter _ _ := ()
  holds _ := Part.Untouched
  enter_expr _ _ := rfl
  enter_stmt _ _ := rfl
  enter_param _ _ := rfl
  enter_bare _ _ := rfl
  holds_bare _ := Part.untouched_bare

namespace Simplify

theorem untouched_resolves {e e' : Expr} (h : Resolves e e') (he : (Part.expr e).Untouched) :
    (Part.expr e').Untouched := by
  cases h with
  | same => exact he
  | reference => cases e <;> exact he
  | _ => trivial

theorem stable_untouchedShape : Stable untouchedShape where
  names :=
    { expr := fun {_ e} _ h => by
        cases e with
        | call _ callee _ => cases callee <;> trivial
        | _ => exact h
      stmt := fun _ _ => trivial
      clause := fun _ _ => trivial
      param := fun _ _ => trivial
      cls := fun _ _ _ _ => trivial
      iface := fun _ _ _ => trivial }
  owners := ⟨untouched_resolves, fun _ _ => trivial⟩
  plain := ⟨fun _ h => ⟨h, rfl⟩, fun _ h => ⟨h, rfl⟩, fun _ _ _ _ _ => trivial, fun _ _ => trivial⟩
  guards := by constructor <;> intros <;> trivial

end Simplify

/-! ## Zones -/

/-- Where a part stands: in a function or outside of all, in an iteration callback, or in a class
that is declared in a callback. -/
inductive Zone where
  | plain
  | callback
  | skipped
deriving DecidableEq

namespace Zone

def enter : Zone → Part → Zone
  | skipped, _ => skipped
  | _, .closure c => if c.isIteration then callback else plain
  | callback, .cls _ | callback, .iface _ | callback, .method _ => skipped
  | z, _ => z

/-- The mark that assignments have in a zone. -/
def mark? : Zone → Option (Option Bool)
  | plain => some none
  | callback => some (some false)
  | skipped => none

theorem enter_bare (z : Zone) (p : Part) : z.enter p.bare = z.enter p := by
  cases z <;> cases p <;> rfl

/-- Two zones of which none is skipped are one in a closure. -/
theorem enter_closure {z z' : Zone} (h : z ≠ skipped) (h' : z' ≠ skipped) (c : Closure) :
    z.enter (.closure c) = z'.enter (.closure c) := by
  cases z <;> cases z' <;> first | rfl | exact absurd rfl ‹_›

end Zone

/-- The mark of an assignment to a variable. -/
def Part.mark? : Part → Option (Option Bool)
  | .expr (.assign _ (.variable ..) _ d) => some d
  | _ => none

/-- Nothing assigns to a made-up variable, and callbacks do without default values. -/
def Part.Tidy : Part → Prop
  | .expr (.assign _ t _ _) => t.isMadeUp = false
  | .closure c => c.isIteration = true → ∀ q ∈ c.params, q.default = none
  | _ => True

theorem Part.mark?_bare (p : Part) : p.bare.mark? = p.mark? := by
  cases p with
  | expr e =>
    cases e with
    | assign _ t _ _ => cases t <;> rfl
    | _ => rfl
  | _ => rfl

theorem Part.tidy_bare (p : Part) : p.bare.Tidy ↔ p.Tidy := by
  cases p with
  | expr e =>
    cases e with
    | assign _ t _ _ => cases t <;> rfl
    | _ => rfl
  | closure c => simp [Part.bare, Tidy, Param.stub]
  | _ => rfl

/-- Parts are tidy, and assignments marked as their zone says. -/
def zoneShape : Shape Zone where
  enter := Zone.enter
  holds z p := p.Tidy ∧ ∀ d, p.mark? = some d → ∀ m, z.mark? = some m → d = m
  enter_expr z _ := by cases z <;> rfl
  enter_stmt z _ := by cases z <;> rfl
  enter_param z _ := by cases z <;> rfl
  enter_bare := Zone.enter_bare
  holds_bare _ p := by rw [p.tidy_bare, p.mark?_bare]

theorem zoneShape_holds {z : Zone} {p : Part} (ht : p.Tidy) (hm : p.mark? = none) :
    zoneShape.holds z p := ⟨ht, by simp [hm]⟩

namespace Simplify

/-! ## The body of a callback

It is made from that of a loop, which may stand in any zone itself. -/

/-- The zones of a part in the loop and in the callback, of which one tells the marks. -/
def bothZones (which : Zone × Zone → Zone) : Shape (Zone × Zone) where
  enter zs p := (zs.1.enter p, zs.2.enter p)
  holds zs := zoneShape.holds (which zs)
  enter_expr zs e := Prod.ext (zoneShape.enter_expr zs.1 e) (zoneShape.enter_expr zs.2 e)
  enter_stmt zs s := Prod.ext (zoneShape.enter_stmt zs.1 s) (zoneShape.enter_stmt zs.2 s)
  enter_param zs p := Prod.ext (zoneShape.enter_param zs.1 p) (zoneShape.enter_param zs.2 p)
  enter_bare zs p := by rw [zs.1.enter_bare, zs.2.enter_bare]
  holds_bare zs p := zoneShape.holds_bare _ p

/-- The zones that come together while a body is visited. -/
def Meet (zs : Zone × Zone) : Prop := zs.2 = .skipped ∨ zs.2 = .callback ∧ zs.1 ≠ .skipped

theorem zoneShape_inCallback {z z' : Zone} {e : Expr} (hz' : z' ≠ .plain)
    (h : zoneShape.holds z (.expr e)) : zoneShape.holds z' (.expr (inCallback e)) := by
  cases e with
  | assign p t v d =>
    cases t with
    | «variable» =>
      refine ⟨h.1, ?_⟩
      rintro _ ⟨⟩ m hm
      cases z' <;> simp_all [Zone.mark?]
    | _ => exact zoneShape_holds rfl rfl
  | _ => exact zoneShape_holds trivial rfl

/-- In a closure the two zones are one again. -/
theorem meet_closure {zs : Zone × Zone} (hzs : Meet zs) {c : Closure}
    (h : Throughout (bothZones Prod.fst) zs (.closure c)) :
    Throughout (bothZones Prod.snd) zs (.closure c) := by
  rcases hzs with hskipped | ⟨hcallback, hne⟩
  · refine h.imp (fun _ zs => zs.2 = .skipped) ?_ ?_ hskipped
    · intro _ zs p hs _
      simp [bothZones, hs, Zone.enter]
    · intro _ zs p hs hold
      exact ⟨hold.1, by simp [hs, Zone.mark?]⟩
  · refine throughout_iff.2 ⟨zoneShape_holds h.head.1 rfl, fun q hq => ?_⟩
    have hsame : ((bothZones Prod.fst).enter zs (.closure c)).1 =
        ((bothZones Prod.fst).enter zs (.closure c)).2 :=
      Zone.enter_closure hne (by rw [hcallback]; nofun) c
    refine (h.child hq).imp (fun zs zs' => zs = zs' ∧ zs.1 = zs.2) ?_ ?_ ⟨rfl, hsame⟩
    · rintro zs _ p ⟨rfl, hsame⟩ _
      exact ⟨rfl, congrArg (·.enter p) hsame⟩
    · rintro ⟨z, _⟩ _ p ⟨rfl, ⟨⟩⟩ hold
      exact hold

theorem admitsCallback_zones : AdmitsCallback Meet (bothZones Prod.fst) (bothZones Prod.snd) where
  enter := rfl
  inside {zs p} hzs hp := by
    obtain ⟨z, z'⟩ := zs
    rcases hzs with hskipped | ⟨hcallback, hne⟩
    · exact .inl (by cases hskipped; rfl)
    · cases hcallback
      cases p with
      | closure c => exact absurd rfl (hp c)
      | cls | iface | method => exact .inl rfl
      | _ => exact .inr ⟨rfl, by cases z <;> exact hne⟩
  kept {_ p} _ he _ h := by
    refine zoneShape_holds h.1 ?_
    cases p with
    | expr e => exact absurd rfl (he e)
    | _ => rfl
  expr hzs h := by
    refine zoneShape_inCallback ?_ h
    rcases hzs with hskipped | ⟨hcallback, -⟩
    · rw [hskipped]; nofun
    · rw [hcallback]; nofun
  ret _ := zoneShape_holds trivial rfl
  stop _ := zoneShape_holds trivial rfl
  closure hzs h := meet_closure hzs h

theorem callbackBody_zones {z : Zone} {c : Closure} (hc : c.isIteration = true) {ss ss' : List Stmt}
    (h : (stmtsThrough callbackBody ss).run 0 = .ok ss')
    (hss : ∀ s ∈ ss, Throughout zoneShape z (.stmt s)) :
    ∀ s ∈ ss', Throughout zoneShape (z.enter (.closure c)) (.stmt s) := by
  have hmeet : Meet (z, z.enter (.closure c)) := by
    cases z with
    | skipped => exact .inl rfl
    | _ => exact .inr ⟨by simp [Zone.enter, hc], nofun⟩
  intro s hs
  refine (callbackBody_throughout admitsCallback_zones hmeet h (fun s hs => ?_) s hs).imp
    (fun zs z => zs.2 = z) ?_ ?_ rfl
  · exact (hss s hs).imp (fun z zs => zs.1 = z) (by rintro _ _ p rfl _; rfl) (by rintro _ _ p rfl h; exact h) rfl
  · rintro _ _ p rfl _
    rfl
  · rintro _ _ p rfl h
    exact h

/-! ## The passes -/

/-- What the pass for arrays meets: a program text, and no zone but the first. -/
def textShape : Shape Zone where
  enter := Zone.enter
  holds z p := p.Untouched ∧ z = .plain
  enter_expr := zoneShape.enter_expr
  enter_stmt := zoneShape.enter_stmt
  enter_param := zoneShape.enter_param
  enter_bare := Zone.enter_bare
  holds_bare _ p := and_congr_left fun _ => p.untouched_bare

theorem zoneShape_of_text {z : Zone} {p : Part} (h : textShape.holds z p) : zoneShape.holds z p := by
  obtain ⟨h, rfl⟩ := h
  cases p with
  | expr e =>
    cases e with
    | assign p t v d =>
      obtain ⟨ht, rfl⟩ := h
      refine ⟨ht, fun d hd m hm => ?_⟩
      cases t <;> simp_all [Part.mark?, Zone.mark?]
    | _ => exact zoneShape_holds trivial rfl
  | closure c => exact zoneShape_holds (fun hc => absurd (h.symm.trans hc) nofun) rfl
  | _ => exact zoneShape_holds trivial rfl

theorem admitsArrays_zones : AdmitsArrays textShape zoneShape where
  enter := rfl
  kept _ := zoneShape_of_text
  call := zoneShape_holds trivial rfl
  array := zoneShape_holds trivial rfl
  statement := zoneShape_holds trivial rfl
  function := zoneShape_holds trivial rfl
  callback hps := zoneShape_holds (fun _ q hq => (hps q hq).default) rfl
  binding _ := zoneShape_holds trivial rfl
  body hc h hss := callbackBody_zones hc h hss

theorem admitsInitialisers_zones : AdmitsInitialisers zoneShape := by
  intro z p pos name hp
  have hzone : z.enter p ≠ .callback := by
    cases p with
    | closure c => cases z <;> simp_all [Part.isFunction, Zone.enter]
    | method => cases z <;> rintro ⟨⟩
    | _ => cases hp
  refine throughout_stmt.2 ⟨zoneShape_holds trivial rfl, ?_⟩
  rintro _ (_ | ⟨_, ⟨⟩⟩)
  refine throughout_expr.2 ⟨⟨rfl, ?_⟩, ?_⟩
  · rintro _ ⟨⟩ m hm
    change (z.enter p).mark? = some m at hm
    cases hz : z.enter p <;> simp_all [Zone.mark?]
  · rintro _ (_ | ⟨_, _ | ⟨_, ⟨⟩⟩⟩)
    all_goals exact throughout_expr.2 ⟨zoneShape_holds trivial rfl, by rintro _ ⟨⟩⟩

theorem statements_zones {pipeline : Pipeline} {si : String} {ss out : List Stmt}
    (h : statements pipeline si ss = .ok out)
    (hss : ∀ s ∈ ss, Throughout untouchedShape () (.stmt s)) :
    ∀ s ∈ out, Throughout zoneShape .plain (.stmt s) := by
  obtain ⟨resolved, hresolved, h⟩ := bind_eq_ok.1 h
  obtain ⟨listed, hlisted, h⟩ := bind_eq_ok.1 h
  cases h
  have htypes := types_throughout stable_untouchedShape pipeline si
    (resolved_throughout stable_untouchedShape hresolved hss)
  have htext : ∀ s ∈ types pipeline si resolved, Throughout textShape .plain (.stmt s) := fun s hs => by
    refine (htypes s hs).imp (fun _ z => z = .plain) ?_ ?_ rfl
    · rintro b _ p rfl hold
      have huntouched : p.Untouched := hold.1.1.1.1.1
      cases p with
      | closure c => exact if_neg (by rw [huntouched]; nofun)
      | _ => rfl
    · exact fun hz hold => ⟨hold.1.1.1.1.1, hz⟩
  have harrays := Carried.ofStmts
    ((arrays_sound admitsArrays_zones).stmts _ () listed hlisted) trivial htext
  exact Carried.ofStmts ((initialisers_sound admitsInitialisers_zones).stmts listed ()) trivial harrays

end Simplify

/-- A simplified program text: assignments are marked in callbacks only, as no declarations. -/
theorem SourceFile.simplify_zones {pipeline : Pipeline} {si : String} {f g : SourceFile}
    (h : f.simplify pipeline si = .ok g) (hf : ∀ q ∈ f.parts, q.Untouched) :
    ∀ s ∈ g.stmts, Throughout zoneShape .plain (.stmt s) := by
  unfold simplify at h
  split at h
  · next hok =>
    cases h
    refine Simplify.statements_zones hok fun s hs => throughout_of_all fun q hq _ => hf q ?_
    exact List.mem_flatMap.2 ⟨_, List.mem_map_of_mem hs, hq⟩
  · cases h

end ClassScript
