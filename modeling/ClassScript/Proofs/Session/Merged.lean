import ClassScript.Proofs.Registry.Records
import ClassScript.Proofs.Session.Run
/-!
# What a session is made of

The registry and the files of a session come from one prepared file after the other (`run_merges`). So
the registry records what the files declare (`run_records`).
-/

namespace ClassScript.Session

variable {env : Setting} {s t : Session}

/-- Taking in a file changes nothing, or its text is prepared and merged. -/
theorem ingest_cases {path : Path} {pipeline : Pipeline} {isInternal : Bool}
    (h : s.ingest env path pipeline isInternal = .ok t) :
    t = s ∨ ∃ l text f, env.files.read path = .ok text ∧ env.prepare path pipeline text = .ok f ∧
      s.merge l f isInternal = .ok t := by
  unfold ingest at h
  split at h
  · cases h
  · next l entry hfind =>
    split at h
    · exact .inl (Except.ok.inj h).symm
    · obtain ⟨text, htext, h⟩ := bind_eq_ok.1 h
      obtain ⟨f, hf, h⟩ := bind_eq_ok.1 h
      exact .inr ⟨l, text, f, bind_eq_ok.2 ⟨_, hfind, mapError_eq_ok.1 htext⟩, hf, h⟩

/-- What holds of nothing and is kept by each prepared file holds of a session that has run. -/
theorem run_merges {P : Registry → List SourceFile → Prop} (hempty : P {} [])
    (hmerge : ∀ {r r' units path pipeline text f isInternal declared}, P r units →
      env.files.read path = .ok text → env.prepare path pipeline text = .ok f →
      (Registry.addFile f isInternal).run.run r = (.ok declared, r') → P r' (units ++ [f]))
    {entry : Path} (h : run env entry = .ok t) : P t.registry t.units := by
  have hingest {s t : Session} {path : Path} {pipeline : Pipeline} {isInternal : Bool}
      (h : s.ingest env path pipeline isInternal = .ok t) (hs : P s.registry s.units) : P t.registry t.units := by
    rcases ingest_cases h with rfl | ⟨l, text, f, htext, hf, hmerged⟩
    · exact hs
    · unfold merge at hmerged
      split at hmerged
      · cases hmerged
      · next declared registry hadd =>
        cases hmerged
        exact hmerge hs htext hf hadd
  obtain ⟨s, hs, ht⟩ := bind_eq_ok.1 h
  obtain ⟨log, hrun⟩ := Run.exists_run env s
  refine (Run.invariant (P := fun s => P s.registry s.units) (fun {s t step} hturn hstep hs => ?_)
    hrun ht (hingest hs hempty)).1
  obtain ⟨name, requiredBy, rest, -, hturns⟩ := turn_cases hturn
  cases hturns with
  | known | free =>
    cases hstep
    exact hs
  | lost | failed => cases hstep
  | taken htaken _ =>
    cases hstep
    exact (hingest htaken hs :)

theorem run_records {entry : Path} (h : run env entry = .ok t) :
    Registry.Records t.registry (t.units.flatMap (·.classes)) (t.units.flatMap (·.interfaces)) := by
  refine run_merges (P := fun r units =>
    Registry.Records r (units.flatMap (·.classes)) (units.flatMap (·.interfaces))) .empty
    (fun hrecords _ _ hadd => ?_) h
  simpa using hrecords.addFile hadd

/-- The files of a session are those of the file system, prepared. -/
theorem run_prepared {entry : Path} (h : run env entry = .ok t) : ∀ f ∈ t.units, ∃ path pipeline text,
    env.files.read path = .ok text ∧ env.prepare path pipeline text = .ok f := by
  refine run_merges (P := fun _ units => ∀ f ∈ units, ∃ path pipeline text,
    env.files.read path = .ok text ∧ env.prepare path pipeline text = .ok f) nofun (fun hunits htext hf _ => ?_) h
  exact List.forall_mem_append.2 ⟨hunits, List.forall_mem_singleton.2 ⟨_, _, _, htext, hf⟩⟩

end ClassScript.Session
