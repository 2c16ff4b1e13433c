import ContractMigration.Proofs.Cache.Steps

/-! Where artifacts and computations come from. Each artifact came to be by one thing that happened: it was inserted, or
a computation ended with it. No two artifacts have the same identity, and what a slot holds was inserted for its
repository or made by a computation of its stage. Each computation was started by one request, and no two have the same
number. -/

namespace ContractMigration.Usage

open Cache

variable {α : Type} [Staged α]

/-- How an artifact of a stage came to a repository in what has happened. -/
inductive Origin (h : List (Event α)) (k : Key) (s : Stage) (x : Artifact α) : Prop
  | inserted (told : .inserted k x ∈ h) (staged : x.stage = s)
  | computed (m : Computation) (sources : List (Artifact α)) (told : .finished m (.ok x) sources ∈ h) (key : m.key = k)
      (stage : m.stage = s)

theorem Origin.mono {h h' : List (Event α)} (hsub : h ⊆ h') {k : Key} {s : Stage} {x : Artifact α}
    (o : Origin h k s x) : Origin h' k s x := by
  cases o with
  | inserted told staged => exact .inserted (hsub told) staged
  | computed m sources told key stage => exact .computed m sources (hsub told) key stage

theorem Cause.origin {u : Usage α} {a : Action α} {k : Key} {x : Artifact α} (h : Cause u a k x) :
    Origin (u.events a) k x.stage x := by
  cases h with
  | inserted told => exact .inserted told rfl
  | computed m sources told runs key staged accepted => exact .computed m sources told key staged.symm

/-- What has happened explains the state. -/
structure Explains (h : List (Event α)) (u : Usage α) : Prop where
  valid : Valid u
  made : ∀ e ∈ h, ∀ x ∈ e.made, x.id < u.cache.nextArtifact
  once : ∀ e ∈ h, ∀ e' ∈ h, ∀ x ∈ e.made, ∀ y ∈ e'.made, x.id = y.id → e = e'
  slots : ∀ k s x, u.cache.slot? k s = some x → Origin h k s x.artifact

theorem explains_start (lifetime capacity : ℕ) : Explains [] (start lifetime capacity : Usage α) where
  valid := valid_start lifetime capacity
  made := by simp
  once := by simp
  slots := fun _ _ _ h => nomatch h

theorem explains_step {h : List (Event α)} {u : Usage α} (hu : Explains h u) (a : Action α) :
    Explains (h ++ u.events a) (u.step a) := by
  refine ⟨valid_step hu.valid a, ?made, ?once, ?slots⟩
  case made =>
    intro e he x hx
    rcases List.mem_append.mp he with he | he
    · exact (hu.made e he x hx).trans_le (advances_step u a).artifacts
    · exact (id_of_made he hx).2
  case once =>
    intro e he e' he' x hx y hy hid
    rcases List.mem_append.mp he with he | he <;> rcases List.mem_append.mp he' with he' | he'
    · exact hu.once e he e' he' x hx y hy hid
    · have := hu.made e he x hx
      have := (id_of_made he' hy).1
      omega
    · have := hu.made e' he' y hy
      have := (id_of_made he hx).1
      omega
    · exact eq_of_mem_events he he'
  case slots =>
    intro k s x hx
    rcases slot?_step hu.valid.keys hx with hx | ⟨rfl, cause⟩
    · exact (hu.slots k s x hx).mono (List.subset_append_left _ _)
    · exact cause.origin.mono (List.subset_append_right _ _)

/-- An artifact that came to be in what has happened. -/
def Arisen (h : List (Event α)) (x : Artifact α) : Prop := ∃ e ∈ h, x ∈ e.made

namespace Arisen

variable {h : List (Event α)} {u : Usage α} {x y : Artifact α}

omit [Staged α] in
theorem mono {h' : List (Event α)} (hsub : h ⊆ h') (hx : Arisen h x) : Arisen h' x := by
  obtain ⟨e, he, hx⟩ := hx
  exact ⟨e, hsub he, hx⟩

theorem lt (hu : Explains h u) (hx : Arisen h x) : x.id < u.cache.nextArtifact := by
  obtain ⟨e, he, hx⟩ := hx
  exact hu.made e he x hx

/-- Artifacts are told apart by their identities. -/
theorem eq (hu : Explains h u) (hx : Arisen h x) (hy : Arisen h y) (hid : x.id = y.id) : x = y := by
  obtain ⟨e, he, hx⟩ := hx
  obtain ⟨e', he', hy⟩ := hy
  obtain rfl := hu.once e he e' he' x hx y hy hid
  cases e with
  | finished m r sources =>
    cases r with
    | error f => cases hx
    | ok a => exact (List.mem_singleton.mp hx).trans (List.mem_singleton.mp hy).symm
  | inserted k a => exact (List.mem_singleton.mp hx).trans (List.mem_singleton.mp hy).symm
  | _ => cases hx

theorem of_slot (hu : Explains h u) {k : Key} {s : Stage} {x : Stored α} (hx : u.cache.slot? k s = some x) :
    Arisen h x.artifact := by
  cases hu.slots k s x hx with
  | inserted told => exact ⟨_, told, List.mem_singleton.mpr rfl⟩
  | computed m sources told => exact ⟨_, told, List.mem_singleton.mpr rfl⟩

end Arisen

/-- A computation ends with an artifact of its stage. -/
theorem stage_of_finished {u : Usage α} {a : Action α} {m : Computation} {x : Artifact α} {sources : List (Artifact α)}
    (h : .finished m (.ok x) sources ∈ u.events a) :
    x.stage = m.stage ∧ ∃ v staged, a = .finish m (.value v sources staged) := by
  obtain ⟨-, y, rfl, hx, rfl⟩ := finish_of_finished h
  cases y with
  | failure e => cases hx
  | value v sources staged =>
    rw [Except.ok.inj hx]
    exact ⟨staged, v, staged, rfl⟩

/-! ### Computations -/

/-- What has happened tells of each computation how it was started. -/
structure Numbered (h : List (Event α)) (u : Usage α) : Prop where
  started : ∀ k s m, .requested k s (.start m) ∈ h → m.key = k ∧ m.stage = s ∧ m.id < u.cache.nextComputation
  once : ∀ k s m k' s' m', .requested k s (.start m) ∈ h → .requested k' s' (.start m') ∈ h → m.id = m'.id → m = m'
  running : ∀ m ∈ u.running, .requested m.key m.stage (.start m) ∈ h
  finished : ∀ m r sources, .finished m r sources ∈ h → .requested m.key m.stage (.start m) ∈ h

omit [Staged α] in
theorem numbered_start (lifetime capacity : ℕ) : Numbered [] (start lifetime capacity : Usage α) where
  started := by simp
  once := by simp
  running := by simp [start]
  finished := by simp

theorem numbered_step {h : List (Event α)} {u : Usage α} (hu : Numbered h u) (a : Action α) :
    Numbered (h ++ u.events a) (u.step a) := by
  refine ⟨?started, ?once, ?running, ?finished⟩
  case started =>
    intro k s m told
    rcases List.mem_append.mp told with told | told
    · obtain ⟨hk, hs, hid⟩ := hu.started k s m told
      exact ⟨hk, hs, hid.trans_le (advances_step u a).computations⟩
    · obtain ⟨hm, -, hid⟩ := start_of_requested told
      exact ⟨by rw [hm], by rw [hm], hid⟩
  case once =>
    intro k s m k' s' m' told told' hid
    rcases List.mem_append.mp told with told | told <;> rcases List.mem_append.mp told' with told' | told'
    · exact hu.once k s m k' s' m' told told' hid
    · have := (hu.started k s m told).2.2
      rw [hid, (start_of_requested told').1] at this
      exact absurd this (lt_irrefl _)
    · have := (hu.started k' s' m' told').2.2
      rw [← hid, (start_of_requested told).1] at this
      exact absurd this (lt_irrefl _)
    · cases eq_of_mem_events told told'
      rfl
  case running =>
    intro m hm
    rw [List.mem_append]
    exact (mem_running_step hm).imp_left (hu.running m)
  case finished =>
    intro m r sources told
    rcases List.mem_append.mp told with told | told
    · exact List.mem_append_left _ (hu.finished m r sources told)
    · exact List.mem_append_left _ (hu.running m (finish_of_finished told).1)

/-- What happens in a run tells how its computations were started. -/
theorem numbered_run (lifetime capacity : ℕ) (acts : List (Action α)) :
    Numbered (story acts (start lifetime capacity)) (run acts (start lifetime capacity)) :=
  run_keeps (P := Numbered) (fun _ _ a hu => numbered_step hu a) acts (numbered_start lifetime capacity)

/-- A computation that is started in a run has a number that none before it had. -/
theorem le_id_of_started {acts : List (Action α)} {u : Usage α} {k : Key} {s : Stage} {m : Computation}
    (h : .requested k s (.start m) ∈ story acts u) : u.cache.nextComputation ≤ m.id := by
  induction acts generalizing u with
  | nil => cases h
  | cons a rest ih =>
    rw [story_cons] at h
    rcases List.mem_append.mp h with h | h
    · rw [(start_of_requested h).1]
    · exact (advances_step u a).computations.trans (ih h)

end ContractMigration.Usage
