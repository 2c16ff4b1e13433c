import ContractMigration.Proofs.Cache.SingleFlight

/-! Stages are kept apart in a cache. A slot holds an artifact of its stage only, since an artifact is stored in the slot of
the stage that it is of; and a handle is of a computation of its stage, which comes to a value of that stage or fails. So
whoever finds something, or waits for a computation, is given what it has asked for, and a look fails to find what is there
only where it is too old. -/

namespace ContractMigration.Usage

open Cache

variable {α : Type} [Staged α]

/-- How the stages of a repository are kept apart. -/
structure Staging (u : Usage α) : Prop where
  /-- What a slot holds is of the stage of the slot. -/
  slots : ∀ k s x, u.cache.slot? k s = some x → x.artifact.stage = s
  /-- A handle is of a computation that runs, for the same stage of the same repository. -/
  handles : ∀ x ∈ u.cache.handles, ∃ m ∈ u.running, x = ⟨m.key, m.stage, m.id⟩
  /-- Whatever is done from here on, a computation that runs is the only one that ends with its number, and it ends with an
  artifact of its stage or with a failure. -/
  ends : ∀ m ∈ u.running, ∀ acts m' r sources, .finished m' r sources ∈ story acts u → m'.id = m.id →
    m' = m ∧ ∀ a, r = .ok a → a.stage = m.stage
  /-- What a request is served with passes the check of its stage. -/
  hits : ∀ k s a, (u.cache.request u.now k s).1 = .hit a → a.ofStage s = .ok a
  /-- A look with the check of a stage finds nothing just where nothing is stored that is young enough. -/
  looks : ∀ k s, ((u.cache.peek u.now k s).1.bind fun a => (a.ofStage s).toOption) = none ↔
    ∀ x, u.cache.slot? k s = some x → u.cache.lifetime ≤ u.now - x.storedAt

/-- What can be seen of a stage passes its check. -/
theorem ofStage_of_visible? {u : Usage α} (hu : Valid u) {now : ℕ} {k : Key} {s : Stage} {a : Artifact α}
    (ha : u.cache.visible? now k s = some a) : a.ofStage s = .ok a := by
  obtain ⟨x, hx, rfl⟩ := slot?_of_visible? ha
  exact if_pos (hu.staged k s x hx)

/-- Whatever is done with a cache, its stages are kept apart. -/
theorem staging_run (lifetime capacity : ℕ) (acts : List (Action α)) : Staging (run acts (start lifetime capacity)) where
  slots := (valid_run acts (valid_start lifetime capacity)).staged
  handles := manned_run lifetime capacity acts
  ends := by
    intro m hm later m' r sources hfinished hid
    obtain rfl := eq_of_finished (numbered_run lifetime capacity acts) hm hfinished hid
    refine ⟨rfl, ?_⟩
    rintro a rfl
    exact stage_of_finished_in hfinished
  hits := fun _ _ _ ha => ofStage_of_visible? (valid_run acts (valid_start lifetime capacity)) (visible?_of_request ha)
  looks := by
    intro k s
    rw [← visible?_eq_none_iff, peek]
    rcases ha : (run acts (start lifetime capacity)).cache.visible? _ k s with _ | a
    · simp
    · have hchecked := ofStage_of_visible? (valid_run acts (valid_start lifetime capacity)) ha
      simp [hchecked, Except.toOption]

end ContractMigration.Usage
