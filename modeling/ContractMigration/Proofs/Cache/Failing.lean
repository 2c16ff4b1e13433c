import ContractMigration.Proofs.Cache.SingleFlight

/-! A computation that fails leaves nothing behind. Its end takes its handle away, if that is still there, and changes
nothing else. Handles are only given to computations that are started, so the handle of a stage always belongs to the
computation of this stage that was started last; once that one has ended, every handle of the stage is newer, and nobody
can be told to wait for what has failed. -/

namespace ContractMigration.Usage

open Cache

variable {α : Type} [Staged α]

/-- The handle of a stage is of the computation of this stage that was started last. -/
def Latest (u : Usage α) : Prop :=
  ∀ x ∈ u.cache.handles, ∀ m ∈ u.running, m.key = x.key → m.stage = x.stage → m.id ≤ x.id

/-- A computation ends and changes nothing but the handles, and of these it takes away its own at most. -/
structure FailsAlone (u : Usage α) (m : Computation) (v : Usage α) : Prop where
  cache : v.cache = { u.cache with handles := u.cache.handles.filter (· != ⟨m.key, m.stage, m.id⟩) }
  running : v.running = u.running.filter (· ≠ m)
  now : v.now = u.now

/-- The number of a computation that has ended is used up, and what can be joined in its stage was started later. -/
structure Passed (m : Computation) (u : Usage α) : Prop where
  used : m.id < u.cache.nextComputation
  gone : ∀ x ∈ u.cache.handles, x.id ≠ m.id
  later : ∀ x ∈ u.cache.handles, x.key = m.key → x.stage = m.stage → m.id < x.id

/-- What requests meet after a computation has ended without storing anything. -/
structure StartsAfresh (m : Computation) (u : Usage α) : Prop where
  /-- A request for its stage starts a computation just when nothing young enough is stored and no handle is newer. -/
  starts : (∃ m', (u.cache.request u.now m.key m.stage).1 = .start m') ↔
    (∀ x, u.cache.slot? m.key m.stage = some x → u.cache.lifetime ≤ u.now - x.storedAt) ∧
      ∀ x ∈ u.cache.handles, x.key = m.key → x.stage = m.stage → ¬m.id < x.id
  /-- Whatever is started is another computation, and runs. -/
  other : ∀ k s m', (u.cache.request u.now k s).1 = .start m' → m.id < m'.id ∧ m' ∈ (u.step (.request k s)).running
  /-- Whoever joins a computation joins another one, which runs. -/
  joins : ∀ k s id, (u.cache.request u.now k s).1 = .join id → id ≠ m.id ∧ ∃ m' ∈ u.running, m'.id = id

/-! ### Handles -/

theorem latest_step {u : Usage α} (hv : Valid u) (hu : Latest u) (a : Action α) : Latest (u.step a) := by
  intro x hx m hm hk hs
  rcases mem_handles_step hx with hold | ⟨m₀, told, hid⟩ <;> rcases mem_running_step hm with hruns | hstarts
  · exact hu x hold m hruns hk hs
  · -- where there is a handle, nothing is started
    exact absurd ⟨hk.symm, hs.symm⟩ (registered?_eq_none.mp (start_of_requested hstarts).2.1 x hold)
  · rw [← hid, (start_of_requested told).1]
    exact (hv.started m hruns).le
  · rw [← hid, (start_of_requested told).1, (start_of_requested hstarts).1]

theorem latest_run (lifetime capacity : ℕ) (acts : List (Action α)) : Latest (run acts (start lifetime capacity)) :=
  (run_keeps (P := fun _ u => Valid u ∧ Latest u) (fun _ _ a hu => ⟨valid_step hu.1 a, latest_step hu.1 hu.2 a⟩) acts
    (h := []) ⟨valid_start lifetime capacity, nofun⟩).2

/-! ### The end of a computation -/

theorem failsAlone_step {u : Usage α} {m : Computation} (hm : m ∈ u.running) (e : Failure) :
    FailsAlone u m (u.step (.finish m (.failure e))) := by
  rw [step_failure hm]
  exact ⟨rfl, rfl, rfl⟩

/-- A computation whose end is over has no handle, and those of its stage are newer. -/
theorem passed_finish {u : Usage α} (hv : Valid u) (hmanned : Manned u) (hu : Latest u) {m : Computation}
    (hm : m ∈ u.running) (r : Yield α m.stage) : Passed m (u.step (.finish m r)) := by
  have hgone : ∀ x ∈ (u.step (.finish m r)).cache.handles, x ∈ u.cache.handles ∧ x.id ≠ m.id := by
    intro x hx
    rw [handles_finish hm, List.mem_filter, bne_iff_ne] at hx
    refine ⟨hx.1, fun hid => hx.2 ?_⟩
    obtain ⟨m', hm', rfl⟩ := hmanned x hx.1
    rw [List.inj_on_of_nodup_map hv.ids hm' hm hid]
  refine ⟨(hv.started m hm).trans_le (advances_step u _).computations, fun x hx => (hgone x hx).2, fun x hx hk hs => ?_⟩
  obtain ⟨hold, hne⟩ := hgone x hx
  exact lt_of_le_of_ne (hu x hold m hm hk.symm hs.symm) hne.symm

theorem Passed.step {m : Computation} {u : Usage α} (hu : Passed m u) (a : Action α) : Passed m (u.step a) := by
  have hnew : ∀ x ∈ (u.step a).cache.handles, x ∈ u.cache.handles ∨ m.id < x.id := by
    intro x hx
    refine (mem_handles_step hx).imp_right ?_
    rintro ⟨m', told, hid⟩
    rw [← hid, (start_of_requested told).1]
    exact hu.used
  refine ⟨hu.used.trans_le (advances_step u a).computations, fun x hx => ?_, fun x hx hk hs => ?_⟩
  · rcases hnew x hx with hold | hlt
    · exact hu.gone x hold
    · exact hlt.ne'
  · rcases hnew x hx with hold | hlt
    · exact hu.later x hold hk hs
    · exact hlt

theorem Passed.run {m : Computation} {u : Usage α} (hu : Passed m u) (acts : List (Action α)) :
    Passed m (run acts u) := run_keeps (P := fun _ u => Passed m u) (fun _ _ a hu => hu.step a) acts (h := []) hu

/-! ### Requests after the end -/

theorem Passed.startsAfresh {m : Computation} {u : Usage α} (hu : Passed m u) (hmanned : Manned u) :
    StartsAfresh m u where
  starts := by
    rw [request_start_iff, visible?_eq_none_iff, registered?_eq_none]
    refine and_congr_right fun _ => forall₂_congr fun x hx => ?_
    -- a handle of the stage is newer, so there is none as soon as none is newer
    have hlater := hu.later x hx
    tauto
  other := by
    intro k s m' hstart
    have told : .requested k s (.start m') ∈ u.events (.request k s) :=
      List.mem_singleton.mpr (congrArg (Event.requested k s) hstart.symm)
    rw [step_request, hstart]
    refine ⟨?_, List.mem_append_right _ (List.mem_singleton.mpr rfl)⟩
    rw [(start_of_requested told).1]
    exact hu.used
  joins := by
    intro k s id hjoin
    rcases request_cases u.cache u.now k s with ⟨x, -, e⟩ | ⟨id', -, hid, e⟩ | ⟨-, -, e⟩ <;> rw [e] at hjoin
    · cases hjoin
    · obtain rfl := Request.join.inj hjoin
      have hx := mem_of_registered? hid
      obtain ⟨m', hm', he⟩ := hmanned _ hx
      exact ⟨hu.gone _ hx, m', hm', (congrArg Handle.id he).symm⟩
    · cases hjoin

/-- Whatever has been done with a cache and whatever is done with it later: the failure of a computation changes nothing
but its handle, and a request of its stage that finds neither something young enough nor a newer handle starts anew. -/
theorem failure_run {lifetime capacity : ℕ} {acts : List (Action α)} {u : Usage α}
    (hu : u = run acts (start lifetime capacity)) {m : Computation} (hm : m ∈ u.running) (e : Failure) :
    FailsAlone u m (u.step (.finish m (.failure e))) ∧
      ∀ later, StartsAfresh m (run later (u.step (.finish m (.failure e)))) := by
  refine ⟨failsAlone_step hm e, fun later => ?_⟩
  have hwhole : run (acts ++ .finish m (.failure e) :: later) (start lifetime capacity) =
      run later (u.step (.finish m (.failure e))) := by
    rw [run_append, ← hu, run_cons]
  have hpassed : Passed m (u.step (.finish m (.failure e))) := by
    subst hu
    exact passed_finish (valid_run acts (valid_start lifetime capacity)) (manned_run lifetime capacity acts)
      (latest_run lifetime capacity acts) hm _
  exact (hpassed.run later).startsAfresh (hwhole ▸ manned_run lifetime capacity _)

end ContractMigration.Usage
