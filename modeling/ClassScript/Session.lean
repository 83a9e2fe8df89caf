import ClassScript.Annotate
import ClassScript.Dependencies
import ClassScript.Grammar
import ClassScript.Locator
import ClassScript.Registry.Basic
import ClassScript.Simplify
import ClassScript.Subset
/-!
# Sessions

A session takes in the entry file and then, name by name, the files of all that the program depends
on. A file is read at most once, whatever paths lead to it, so the work ends with the last file.
-/

namespace ClassScript

/-- What a session works with. -/
structure Setting where
  files : FileSystem
  options : Options
  locator : Locator

structure Session where
  registry : Registry := {}
  /-- The files taken in, in their order. -/
  units : List SourceFile := []
  /-- Their locations. -/
  visited : List Location := []
  /-- The names that need no further work. -/
  resolved : List String := []
  /-- The names still to be resolved, each with the file that asks for it. -/
  queue : List (String × String) := []

namespace Setting

variable (env : Setting)

/-- A source text as a file that is simplified, checked and annotated. -/
def prepare (path : Path) (pipeline : Pipeline) (text : String) : Result SourceFile := do
  let f ← SourceFile.parse path.text text
  let f ← f.simplify pipeline env.options.scriptInterface
  match f.violation? with
  | some v => throw (v.diagnostic.inFile path.text)
  | none => (f.annotate env.options.scriptInterface).mapError (·.inFile path.text)

end Setting

namespace Session

/-- The session with one more file. Names that it depends on and that are not resolved are queued. -/
def merge (s : Session) (l : Location) (f : SourceFile) (isInternal : Bool) : Result Session :=
  match (Registry.addFile f isInternal).run s.registry with
  | (.error d, _) => .error d
  | (.ok declared, registry) =>
    let resolved := declared ++ s.resolved
    let missing := f.dependencies.filter (!resolved.contains ·)
    .ok
      { registry
        units := s.units ++ [f]
        visited := l :: s.visited
        resolved
        queue := s.queue ++ missing.map (·, f.path) }

variable (env : Setting)

/-- Takes in a file, unless it was taken in before. -/
def ingest (s : Session) (path : Path) (pipeline : Pipeline) (isInternal : Bool) : Result Session :=
  match env.files.find path with
  | .error fault => .error (fault.diagnostic path)
  | .ok (l, entry) =>
    if s.visited.contains l then .ok s
    else do
      let text ← entry.content.mapError (·.diagnostic path)
      let f ← env.prepare path pipeline text
      s.merge l f isInternal

/-- Files of the library need no guards for parameter types. -/
def pipelineFor (isInternal : Bool) : Pipeline := if isInternal then .reduced else .full

/-- How many files are left to read. -/
def unread (s : Session) : Nat := unseen (·.1) env.files.entries s.visited

theorem visited_merge {s s' : Session} {l : Location} {f : SourceFile} {i : Bool}
    (h : s.merge l f i = .ok s') : s'.visited = l :: s.visited := by
  unfold merge at h
  split at h
  · cases h
  · cases h
    rfl

/-- Only a listed file has a content. -/
theorem mem_entries_of_find {fs : FileSystem} {p : Path} {l : Location} {e : FileEntry}
    {text : String} (h : fs.find p = .ok (l, e)) (ht : e.content = .ok text) :
    (l, e) ∈ fs.entries := by
  unfold FileSystem.find at h
  cases hr : fs.resolve p with
  | error f => simp [hr, bind, Except.bind] at h
  | ok l' =>
    simp only [hr, bind, Except.bind] at h
    split at h
    next e' he =>
      cases h
      unfold FileSystem.entry? at he
      split at he
      next e' hl =>
        cases he
        exact mem_of_lookup hl
      next =>
        split at he
        · cases he
          cases ht
        · cases he
    next => cases h

/-- Taking in a file changes nothing or leaves fewer files to read. -/
theorem unread_ingest {s s' : Session} {p : Path} {pl : Pipeline} {i : Bool}
    (h : s.ingest env p pl i = .ok s') : s' = s ∨ s'.unread env < s.unread env := by
  unfold ingest at h
  split at h
  · cases h
  next l entry hf =>
    split at h
    · exact .inl (Except.ok.inj h).symm
    next hv =>
      right
      cases hc : entry.content with
      | error f =>
        rw [hc] at h
        cases h
      | ok text =>
        rw [hc] at h
        change (env.prepare p pl text >>= fun f => s.merge l f i) = .ok s' at h
        cases hp : env.prepare p pl text with
        | error d =>
          rw [hp] at h
          cases h
        | ok f =>
          rw [hp] at h
          have hm := mem_entries_of_find hf hc
          have hv : s.visited.contains l = false := by simpa using hv
          unfold unread
          rw [visited_merge h]
          exact unseen_cons_lt (f := Prod.fst) hm hv

/-- Resolves the names in the queue until none is left. -/
def resolve (s : Session) : Result Session :=
  match _hq : s.queue with
  | [] => .ok s
  | (name, requiredBy) :: rest =>
    let s' := { s with queue := rest }
    if s.resolved.contains name || s.registry.contains name then s'.resolve
    else match env.locator.file? name with
      | .error d => .error (d.inFile requiredBy)
      | .ok none => resolve { s' with resolved := name :: s.resolved }
      | .ok (some path) =>
        let isInternal := env.locator.isInternal name
        match _h : s'.ingest env path (pipelineFor isInternal) isInternal with
        | .error d => .error d
        | .ok t =>
          if t.registry.contains name then resolve { t with resolved := name :: t.resolved }
          else .error
            { kind := .unknownDependency
              message := path.text ++ " does not declare " ++ name
              file := requiredBy }
termination_by (s.unread env, s.queue.length)
decreasing_by
  · exact Prod.Lex.right _ (by simp [_hq])
  · exact Prod.Lex.right _ (by simp [_hq])
  · rcases unread_ingest env _h with rfl | hlt
    · exact Prod.Lex.right _ (by simp [_hq, s'])
    · exact Prod.Lex.left _ _ hlt

/-- The session after an entry file and all it depends on. -/
def run (entry : Path) : Result Session := do
  (← ({} : Session).ingest env entry .full false).resolve env

end Session

end ClassScript
