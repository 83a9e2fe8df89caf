import ClassScript.Proofs.Registry.Names
import ClassScript.Proofs.Session.Run
/-!
# What a session has taken in

The registry of a session has the names that its files declare, each once. Whatever a file depends on
is provided or still in the queue (`turn_sound`), so it is provided when the queue is empty
(`run_sound`).
-/

namespace ClassScript.Session

variable {env : Setting} {s t : Session}

/-- The name is declared, or needs no file. -/
def Provided (env : Setting) (s : Session) (name : String) : Prop :=
  s.registry.contains name = true ∨ env.locator.file? name = .ok none

/-- The names in the queue. -/
def waiting (s : Session) : List String := s.queue.map Prod.fst

/-- What holds of a session between turns, with the names that are still to be resolved. -/
structure Sound (env : Setting) (s : Session) (pending : List String) : Prop where
  classes : s.registry.classes.map (·.name) = s.units.flatMap (·.classes.map Class.qualifiedName)
  interfaces : s.registry.interfaces.map (·.name) = s.units.flatMap (·.interfaces.map Interface.qualifiedName)
  distinct : s.registry.names.Nodup
  settled : ∀ n ∈ s.resolved, Provided env s n
  awaited : ∀ f ∈ s.units, ∀ n ∈ f.dependencies, Provided env s n ∨ n ∈ pending

theorem sound_empty (env : Setting) : Sound env {} [] := ⟨rfl, rfl, .nil, nofun, nofun⟩

/-- A merged file declares its names, and what it depends on is provided or queued. -/
theorem Sound.merge {pending : List String} (h : Sound env s (pending ++ s.waiting)) {l : Location}
    {f : SourceFile} {isInternal : Bool} (ht : s.merge l f isInternal = .ok t) :
    Sound env t (pending ++ t.waiting) := by
  unfold Session.merge at ht
  split at ht
  · cases ht
  · next declared registry hadd =>
    cases ht
    obtain ⟨hadds, rfl⟩ := Registry.addFile_adds hadd
    have hprovided {n : String} (hn : Provided env s n) : registry.contains n = true ∨ env.locator.file? n = .ok none :=
      hn.imp_left fun hn => Registry.contains_iff.2 (hadds.mem_names.2 (.inl (Registry.contains_iff.1 hn)))
    have hsettled : ∀ n ∈ f.interfaces.map Interface.qualifiedName ++ f.classes.map Class.qualifiedName ++ s.resolved,
        registry.contains n = true ∨ env.locator.file? n = .ok none := by
      intro n hn
      rcases List.mem_append.1 hn with hn | hn
      · refine .inl (Registry.contains_iff.2 (hadds.mem_names.2 (.inr ?_)))
        exact (List.mem_append.1 hn).symm
      · exact hprovided (h.settled n hn)
    refine ⟨?_, ?_, hadds.nodup h.distinct, hsettled, ?_⟩
    · rw [hadds.classes, h.classes]
      simp
    · rw [hadds.interfaces, h.interfaces]
      simp
    · intro g hg n hn
      simp only [waiting, List.map_append, List.map_map, List.mem_append]
      rcases List.mem_append.1 hg with hg | hg
      · rcases h.awaited g hg n hn with hn | hn
        · exact .inl (hprovided hn)
        · exact .inr ((List.mem_append.1 hn).imp_right .inl)
      · obtain rfl := List.mem_singleton.1 hg
        by_cases hresolved : n ∈ g.interfaces.map Interface.qualifiedName ++
            g.classes.map Class.qualifiedName ++ s.resolved
        · exact .inl (hsettled n hresolved)
        · refine .inr (.inr (.inr (List.mem_map.2 ⟨n, List.mem_filter.2 ⟨hn, ?_⟩, rfl⟩)))
          simpa using hresolved

theorem Sound.ingest (pending : List String) (h : Sound env s (pending ++ s.waiting)) {path : Path}
    {pipeline : Pipeline} {isInternal : Bool} (ht : s.ingest env path pipeline isInternal = .ok t) :
    Sound env t (pending ++ t.waiting) := by
  rcases ingestLogged_cases env s path pipeline isInternal with ⟨-, hsame⟩ | ⟨l, -, -, hmerge⟩
  · exact hsame t ht ▸ h
  · obtain ⟨f, hf⟩ := hmerge t ht
    exact h.merge hf

/-- A name that is provided needs no more work. -/
theorem Sound.resolving {name : String} {pending : List String} (h : Sound env s (name :: pending))
    (hname : Provided env s name) : Sound env { s with resolved := name :: s.resolved } pending where
  classes := h.classes
  interfaces := h.interfaces
  distinct := h.distinct
  settled := List.forall_mem_cons.2 ⟨hname, h.settled⟩
  awaited f hf n hn := by
    rcases h.awaited f hf n hn with hn | hn
    · exact .inl hn
    · rcases List.mem_cons.1 hn with rfl | hn
      · exact .inl hname
      · exact .inr hn

theorem Sound.turn {step : Logged Session} (h : Sound env s s.waiting) (hturn : s.turn env = some step)
    (hstep : step.result = .ok t) : Sound env t t.waiting := by
  obtain ⟨name, requiredBy, rest, hq, hturns⟩ := turn_cases hturn
  have hwaiting : s.waiting = name :: rest.map Prod.fst := by rw [waiting, hq]; rfl
  -- the name has left the queue, but it is not settled yet
  have hpopped : Sound env { s with queue := rest } (name :: rest.map Prod.fst) :=
    ⟨h.classes, h.interfaces, h.distinct, h.settled, hwaiting ▸ h.awaited⟩
  cases hturns with
  | known hknown =>
    cases hstep
    have hname : Provided env s name := hknown.elim (fun hn => h.settled name (by simpa using hn)) .inl
    have hsound := hpopped.resolving hname
    exact ⟨h.classes, h.interfaces, h.distinct, h.settled, hsound.awaited⟩
  | free hfree =>
    cases hstep
    exact hpopped.resolving (.inr hfree)
  | lost | failed => cases hstep
  | taken hingest hcontains =>
    cases hstep
    have hingested := Sound.ingest [name] hpopped hingest
    exact hingested.resolving (.inl hcontains)

/-- A session that has run without failure has all names that its files depend on. -/
theorem run_sound {entry : Path} (h : run env entry = .ok t) : Sound env t [] := by
  obtain ⟨s, hs, ht⟩ := bind_eq_ok.1 h
  have hsound : Sound env s s.waiting := Sound.ingest [] (sound_empty env) hs
  obtain ⟨log, hrun⟩ := Run.exists_run env s
  obtain ⟨hend, hqueue⟩ := Run.invariant (P := fun s => Sound env s s.waiting)
    (fun hturn hstep h => Sound.turn h hturn hstep) hrun ht hsound
  rwa [waiting, hqueue] at hend

end ClassScript.Session
