import ClassScript.Proofs.Tree.Through
import ClassScript.Session
/-!
# Runs of a session

One turn of a session takes the first name from the queue. A run is turns one after the other, with
the files that are parsed on the way. Every session has exactly one run, which ends with what
`resolve` gives, and no file is parsed twice in it (`Run.exists_run`, `Run.unique`, `Run.nodup`).
-/

namespace ClassScript

/-- A result and the files that were parsed for it. -/
structure Logged (α : Type) where
  log : List Location
  result : Result α

namespace Logged

/-- A result for which nothing is parsed. -/
def of {α : Type} (result : Result α) : Logged α := ⟨[], result⟩

instance : Monad Logged where
  pure a := of (.ok a)
  bind x f := match x.result with
    | .error d => ⟨x.log, .error d⟩
    | .ok a => ⟨x.log ++ (f a).log, (f a).result⟩

variable {α β : Type} {x : Logged α} {f : α → Logged β}

theorem result_bind : (x >>= f).result = x.result >>= fun a => (f a).result := by
  obtain ⟨log, result⟩ := x
  cases result <;> rfl

theorem bind_error {d : Diagnostic} (h : x.result = .error d) : x >>= f = ⟨x.log, .error d⟩ := by
  obtain ⟨log, result⟩ := x
  cases h
  rfl

theorem bind_ok {a : α} (h : x.result = .ok a) : x >>= f = ⟨x.log ++ (f a).log, (f a).result⟩ := by
  obtain ⟨log, result⟩ := x
  cases h
  rfl

/-- What stands behind without parsing leaves the log as it is. -/
theorem log_bind_of {g : α → Result β} : (x >>= fun a => of (g a)).log = x.log := by
  obtain ⟨log, result⟩ := x
  cases result with
  | error d => rfl
  | ok a => exact List.append_nil log

end Logged

namespace Session

variable (env : Setting)

/-- Takes in a file, with the location of the file if it is parsed. -/
def ingestLogged (s : Session) (path : Path) (pipeline : Pipeline) (isInternal : Bool) :
    Logged Session :=
  match env.files.find path with
  | .error fault => .of (.error (fault.diagnostic path))
  | .ok (l, entry) =>
    if s.visited.contains l then pure s
    else do
      let text ← Logged.of (entry.content.mapError (·.diagnostic path))
      let f ← (⟨[l], env.prepare path pipeline text⟩ : Logged SourceFile)
      .of (s.merge l f isInternal)

theorem ingestLogged_result (s : Session) (path : Path) (pipeline : Pipeline) (isInternal : Bool) :
    (s.ingestLogged env path pipeline isInternal).result = s.ingest env path pipeline isInternal := by
  unfold ingestLogged ingest
  cases env.files.find path with
  | error fault => rfl
  | ok found =>
    obtain ⟨l, entry⟩ := found
    dsimp only
    by_cases hv : s.visited.contains l = true
    · rw [if_pos hv, if_pos hv]
      rfl
    · rw [if_neg hv, if_neg hv, Logged.result_bind]
      congr
      funext text
      rw [Logged.result_bind]
      rfl

/-- What is done with the first name in the queue. -/
def turn (s : Session) : Option (Logged Session) :=
  match s.queue with
  | [] => none
  | (name, requiredBy) :: rest =>
    let s' := { s with queue := rest }
    some <|
      if s.resolved.contains name || s.registry.contains name then pure s'
      else match env.locator.file? name with
        | .error d => .of (.error (d.inFile requiredBy))
        | .ok none => pure { s' with resolved := name :: s.resolved }
        | .ok (some path) => do
          let isInternal := env.locator.isInternal name
          let t ← s'.ingestLogged env path (pipelineFor isInternal) isInternal
          if t.registry.contains name then pure { t with resolved := name :: t.resolved }
          else .of (.error
            { kind := .unknownDependency
              message := path.text ++ " does not declare " ++ name
              file := requiredBy })

/-- Names are resolved turn by turn. -/
theorem resolve_eq_turn (s : Session) : s.resolve env = match s.turn env with
    | none => .ok s
    | some step => step.result >>= fun t => t.resolve env := by
  conv_lhs => unfold resolve
  unfold turn
  split
  · next hq => rw [hq]
  · next name requiredBy rest hq =>
    rw [hq]
    dsimp only
    by_cases hknown : (s.resolved.contains name || s.registry.contains name) = true
    · rw [if_pos hknown, if_pos hknown]
      rfl
    · rw [if_neg hknown, if_neg hknown]
      cases env.locator.file? name with
      | error d => rfl
      | ok found =>
        cases found with
        | none => rfl
        | some path =>
          dsimp only
          rw [Logged.result_bind, ingestLogged_result]
          split
          · next h => rw [h]; rfl
          · next t h =>
            rw [h]
            change _ = (if t.registry.contains name = true then _ else _ : Logged Session).result >>= _
            split <;> rfl

/-! ## What one turn can do -/

/-- Nothing is parsed and nothing changes, or a file that was not visited is parsed and merged. -/
theorem ingestLogged_cases (s : Session) (path : Path) (pipeline : Pipeline) (isInternal : Bool) :
    ((s.ingestLogged env path pipeline isInternal).log = [] ∧
      ∀ t, s.ingest env path pipeline isInternal = .ok t → t = s) ∨
    ∃ l, (s.ingestLogged env path pipeline isInternal).log = [l] ∧ l ∉ s.visited ∧
      ∀ t, s.ingest env path pipeline isInternal = .ok t → ∃ f, s.merge l f isInternal = .ok t := by
  unfold ingestLogged ingest
  cases env.files.find path with
  | error fault => exact .inl ⟨rfl, nofun⟩
  | ok found =>
    obtain ⟨l, entry⟩ := found
    dsimp only
    by_cases hv : s.visited.contains l = true
    · rw [if_pos hv, if_pos hv]
      exact .inl ⟨rfl, fun t ht => (Except.ok.inj ht).symm⟩
    · rw [if_neg hv, if_neg hv]
      cases entry.content.mapError (·.diagnostic path) with
      | error d => exact .inl ⟨rfl, nofun⟩
      | ok text =>
        refine .inr ⟨l, ?_, by simpa using hv, fun t ht => ?_⟩
        · exact Logged.log_bind_of
        · obtain ⟨_, -, ht⟩ := bind_eq_ok.1 ht
          obtain ⟨f, -, ht⟩ := bind_eq_ok.1 ht
          exact ⟨f, ht⟩

/-- What a turn makes of a session whose queue starts with a name. -/
inductive Turns (s : Session) (name : String) (rest : List (String × String)) : Logged Session → Prop
  | known : s.resolved.contains name = true ∨ s.registry.contains name = true →
      Turns s name rest (.of (.ok { s with queue := rest }))
  | free : env.locator.file? name = .ok none →
      Turns s name rest (.of (.ok { s with queue := rest, resolved := name :: s.resolved }))
  | lost {d : Diagnostic} : Turns s name rest (.of (.error d))
  | failed {path : Path} {pipeline : Pipeline} {isInternal : Bool} {d : Diagnostic} :
      Turns s name rest
        ⟨(({ s with queue := rest } : Session).ingestLogged env path pipeline isInternal).log, .error d⟩
  | taken {path : Path} {pipeline : Pipeline} {isInternal : Bool} {t : Session} :
      ({ s with queue := rest } : Session).ingest env path pipeline isInternal = .ok t →
      t.registry.contains name = true →
      Turns s name rest
        ⟨(({ s with queue := rest } : Session).ingestLogged env path pipeline isInternal).log,
          .ok { t with resolved := name :: t.resolved }⟩

variable {env}

theorem turn_cases {s : Session} {step : Logged Session} (h : s.turn env = some step) :
    ∃ name requiredBy rest, s.queue = (name, requiredBy) :: rest ∧ Turns env s name rest step := by
  unfold turn at h
  split at h
  · cases h
  · next name requiredBy rest hq =>
    refine ⟨name, requiredBy, rest, hq, ?_⟩
    obtain rfl := Option.some.inj h
    split
    · next hknown => exact .known (Bool.or_eq_true_iff.1 hknown)
    · split
      · exact .lost
      · next hf => exact .free hf
      · next path hf =>
        dsimp only
        have hresult := ingestLogged_result env { s with queue := rest } path
          (pipelineFor (env.locator.isInternal name)) (env.locator.isInternal name)
        cases hingest : ({ s with queue := rest } : Session).ingest env path
            (pipelineFor (env.locator.isInternal name)) (env.locator.isInternal name) with
        | error d =>
          rw [Logged.bind_error (hresult.trans hingest)]
          exact .failed
        | ok t =>
          rw [Logged.bind_ok (hresult.trans hingest)]
          split
          · next hcontains =>
            change Turns env s name rest ⟨_ ++ [], _⟩
            rw [List.append_nil]
            exact .taken hingest hcontains
          · change Turns env s name rest ⟨_ ++ [], _⟩
            rw [List.append_nil]
            exact .failed

theorem turn_eq_none_iff {s : Session} : s.turn env = none ↔ s.queue = [] := by
  unfold turn
  split
  · next hq => simp [hq]
  · next hq => simp [hq]

/-- A turn parses at most one file, which was not visited before and is behind. -/
theorem turn_log {s : Session} {step : Logged Session} (h : s.turn env = some step) :
    step.log = [] ∨ ∃ l, step.log = [l] ∧ l ∉ s.visited ∧ ∀ t, step.result = .ok t → l ∈ t.visited := by
  obtain ⟨name, requiredBy, rest, -, hturns⟩ := turn_cases h
  cases hturns with
  | known | free | lost => exact .inl rfl
  | @failed path pipeline isInternal d =>
    rcases ingestLogged_cases env { s with queue := rest } path pipeline isInternal with
      ⟨hlog, -⟩ | ⟨l, hlog, hnew, -⟩
    · exact .inl hlog
    · exact .inr ⟨l, hlog, hnew, nofun⟩
  | @taken path pipeline isInternal t hingest _ =>
    rcases ingestLogged_cases env { s with queue := rest } path pipeline isInternal with
      ⟨hlog, -⟩ | ⟨l, hlog, hnew, hmerge⟩
    · exact .inl hlog
    · refine .inr ⟨l, hlog, hnew, ?_⟩
      rintro _ ⟨⟩
      obtain ⟨f, hf⟩ := hmerge t hingest
      exact visited_merge hf ▸ List.mem_cons_self

theorem visited_turn {s t : Session} {step : Logged Session} (h : s.turn env = some step)
    (ht : step.result = .ok t) : ∀ l ∈ s.visited, l ∈ t.visited := by
  obtain ⟨name, requiredBy, rest, -, hturns⟩ := turn_cases h
  cases hturns with
  | known | free => cases ht; exact fun l hl => hl
  | lost | failed => cases ht
  | @taken path pipeline isInternal u hingest _ =>
    cases ht
    rcases ingestLogged_cases env { s with queue := rest } path pipeline isInternal with
      ⟨-, hsame⟩ | ⟨l, -, -, hmerge⟩
    · cases hsame u hingest
      exact fun l hl => hl
    · obtain ⟨f, hf⟩ := hmerge u hingest
      exact fun l hl => visited_merge hf ▸ List.mem_cons_of_mem _ hl

/-- Each turn leaves fewer files to read, or as many and a shorter queue. -/
theorem turn_lt {s t : Session} {step : Logged Session} (h : s.turn env = some step)
    (ht : step.result = .ok t) : Prod.Lex (· < ·) (· < ·) (t.unread env, t.queue.length)
      (s.unread env, s.queue.length) := by
  obtain ⟨name, requiredBy, rest, hq, hturns⟩ := turn_cases h
  cases hturns with
  | known | free => cases ht; exact Prod.Lex.right _ (by simp [hq])
  | lost | failed => cases ht
  | taken hingest _ =>
    cases ht
    rcases unread_ingest env hingest with rfl | hlt
    · exact Prod.Lex.right _ (by simp [hq])
    · exact Prod.Lex.left _ _ hlt

/-! ## Runs -/

/-- Turns one after the other up to an end, with the files that are parsed on the way. -/
inductive Run (env : Setting) : Session → List Location → Result Session → Prop
  | done {s : Session} : s.turn env = none → Run env s [] (.ok s)
  | failed {s : Session} {step : Logged Session} {d : Diagnostic} : s.turn env = some step →
      step.result = .error d → Run env s step.log (.error d)
  | next {s t : Session} {step : Logged Session} {log : List Location} {r : Result Session} :
      s.turn env = some step → step.result = .ok t → Run env t log r → Run env s (step.log ++ log) r

namespace Run

/-- Every session has a run, and it ends as `resolve` does. -/
theorem exists_run (env : Setting) (s : Session) : ∃ log, Run env s log (s.resolve env) := by
  rw [resolve_eq_turn]
  cases hturn : s.turn env with
  | none => exact ⟨[], .done hturn⟩
  | some step =>
    dsimp only
    cases hstep : step.result with
    | error d => exact ⟨step.log, .failed hturn hstep⟩
    | ok t =>
      obtain ⟨log, hrun⟩ := exists_run env t
      exact ⟨step.log ++ log, .next hturn hstep hrun⟩
termination_by (s.unread env, s.queue.length)
decreasing_by exact turn_lt hturn hstep

theorem unique {s : Session} {log log' : List Location} {r r' : Result Session} (h : Run env s log r)
    (h' : Run env s log' r') : log = log' ∧ r = r' := by
  induction h generalizing log' with
  | done hturn =>
    cases h' with
    | done => exact ⟨rfl, rfl⟩
    | failed hturn' | next hturn' => cases hturn.symm.trans hturn'
  | failed hturn hstep =>
    cases h' with
    | done hturn' => cases hturn.symm.trans hturn'
    | failed hturn' hstep' =>
      cases hturn.symm.trans hturn'
      cases hstep.symm.trans hstep'
      exact ⟨rfl, rfl⟩
    | next hturn' hstep' =>
      cases hturn.symm.trans hturn'
      cases hstep.symm.trans hstep'
  | next hturn hstep _ ih =>
    cases h' with
    | done hturn' => cases hturn.symm.trans hturn'
    | failed hturn' hstep' =>
      cases hturn.symm.trans hturn'
      cases hstep.symm.trans hstep'
    | next hturn' hstep' hrun' =>
      cases hturn.symm.trans hturn'
      cases hstep.symm.trans hstep'
      obtain ⟨rfl, rfl⟩ := ih hrun'
      exact ⟨rfl, rfl⟩

/-- What is parsed in a run was not visited before, and is parsed once. -/
theorem nodup {s : Session} {log : List Location} {r : Result Session} (h : Run env s log r) :
    log.Nodup ∧ ∀ l ∈ log, l ∉ s.visited := by
  induction h with
  | done => exact ⟨.nil, nofun⟩
  | failed hturn hstep =>
    rcases turn_log hturn with hlog | ⟨l, hlog, hnew, -⟩
    · rw [hlog]
      exact ⟨.nil, nofun⟩
    · rw [hlog]
      exact ⟨by simp, List.forall_mem_singleton.2 hnew⟩
  | @next s t step log r hturn hstep _ ih =>
    obtain ⟨hnodup, hlater⟩ := ih
    have hbefore : ∀ l ∈ log, l ∉ s.visited := fun l hl hs => hlater l hl (visited_turn hturn hstep l hs)
    rcases turn_log hturn with hlog | ⟨l, hlog, hnew, hseen⟩
    · rw [hlog]
      exact ⟨hnodup, hbefore⟩
    · rw [hlog]
      refine ⟨List.nodup_cons.2 ⟨fun hl => hlater l hl (hseen t hstep), hnodup⟩, ?_⟩
      exact List.forall_mem_cons.2 ⟨hnew, hbefore⟩

/-- What every turn keeps holds at the end of a run that does not fail, when the queue is empty. -/
theorem invariant {P : Session → Prop} (hP : ∀ {s t step}, s.turn env = some step → step.result = .ok t → P s → P t)
    {s t : Session} {log : List Location} {r : Result Session} (h : Run env s log r) (hr : r = .ok t)
    (hs : P s) : P t ∧ t.queue = [] := by
  induction h with
  | done hturn =>
    cases hr
    exact ⟨hs, turn_eq_none_iff.1 hturn⟩
  | failed => cases hr
  | next hturn hstep _ ih => exact ih hr (hP hturn hstep hs)

end Run

end Session

end ClassScript
