import ContractMigration.Proofs.Cache.Origins

/-! A stored artifact never stands beside another artifact than the one it was made from. Whatever is done with a cache,
in whatever order computations end, expire, are evicted or are overtaken: the slot of each source of a stored artifact is
empty or holds that very source. Storing drops what stands behind, a result is only stored on current sources, and a
source that has left its slot leaves it empty for as long as something made from it is stored. -/

namespace ContractMigration.Usage

open Cache

variable {α : Type} [Staged α]

/-- A computation that ends is said to be made from artifacts of earlier stages only. -/
def Action.Derives : Action α → Prop
  | .finish m r => ∀ a ∈ r.sources, a.stage.rank < m.stage.rank
  | _ => True

/-- The slot of an artifact is empty or holds that very artifact. -/
def NoOther (c : Cache α) (k : Key) (a : Artifact α) : Prop :=
  c.slot? k a.stage = none ∨ ∃ y, c.slot? k a.stage = some y ∧ y.artifact.isSame a

/-- Every stored artifact was inserted or computed for its slot, and beside it stands no other artifact than those it
was made from. -/
def Coherent (h : List (Event α)) (u : Usage α) : Prop :=
  ∀ k s x, u.cache.slot? k s = some x →
    Origin h k s x.artifact ∧
      ∀ m sources, .finished m (.ok x.artifact) sources ∈ h → ∀ a ∈ sources, NoOther u.cache k a

theorem noOther_of_shrinks {c c' : Cache α} (h : Shrinks c c') {k : Key} {a : Artifact α} (ha : NoOther c k a) :
    NoOther c' k a := by
  rcases hy : c'.slot? k a.stage with _ | y
  · exact .inl hy
  · rcases ha with ha | ⟨z, hz, hs⟩
    · rw [h k a.stage y hy] at ha
      cases ha
    · rw [h k a.stage y hy, Option.some.injEq] at hz
      exact .inr ⟨y, hy, by rw [hz]; exact hs⟩

/-- Storing an artifact is indifferent to the slots before it. -/
theorem noOther_of_stores {c c' : Cache α} {k j : Key} {x a : Artifact α} (h : Stores c c' k x)
    (hr : j = k → a.stage.rank < x.stage.rank) (ha : NoOther c j a) : NoOther c' j a := by
  rcases hy : c'.slot? j a.stage with _ | y
  · exact .inl hy
  · rcases h j a.stage y hy with ⟨hj, hs, -⟩ | ⟨hy', -⟩
    · have := hr hj
      rw [hs] at this
      omega
    · rcases ha with ha | ⟨z, hz, hs⟩
      · rw [hy'] at ha
        cases ha
      · rw [hy', Option.some.injEq] at hz
        exact .inr ⟨y, hy, by rw [hz]; exact hs⟩

/-- What the induction on a run carries: besides coherence, that computations end with artifacts of their stage and are
made from earlier stages only. -/
structure CoherentRun (h : List (Event α)) (u : Usage α) : Prop where
  explained : Explains h u
  earlier : ∀ m x sources, .finished m (.ok x) sources ∈ h →
    x.stage = m.stage ∧ ∀ a ∈ sources, a.stage.rank < m.stage.rank
  beside : ∀ k s x, u.cache.slot? k s = some x →
    ∀ m sources, .finished m (.ok x.artifact) sources ∈ h → ∀ a ∈ sources, NoOther u.cache k a

theorem earlier_of_finished {u : Usage α} {a : Action α} (ha : a.Derives) {m : Computation} {x : Artifact α}
    {sources : List (Artifact α)} (h : .finished m (.ok x) sources ∈ u.events a) :
    x.stage = m.stage ∧ ∀ b ∈ sources, b.stage.rank < m.stage.rank := by
  obtain ⟨hx, v, staged, rfl⟩ := stage_of_finished h
  exact ⟨hx, ha⟩

theorem coherentRun_step (h : List (Event α)) (u : Usage α) (a : Action α) (ha : a.Derives) (hu : CoherentRun h u) :
    CoherentRun (h ++ u.events a) (u.step a) := by
  have hx' := explains_step hu.explained a
  refine ⟨hx', ?earlier, ?beside⟩
  case earlier =>
    intro m x sources told
    rcases List.mem_append.mp told with told | told
    · exact hu.earlier m x sources told
    · exact earlier_of_finished ha told
  case beside =>
    intro k s x hx m sources told b hb
    cases effect hu.explained.valid.keys a with
    | shrinks hs =>
      have hold := hs k s x hx
      rcases List.mem_append.mp told with told | told
      · exact noOther_of_shrinks hs (hu.beside k s x hold m sources told b hb)
      · have := hu.explained.valid.made k s x hold
        have := (id_of_made told (List.mem_singleton.mpr rfl)).1
        omega
    | stores j y hs cause =>
      rcases hs k s x hx with ⟨rfl, rfl, rfl⟩ | ⟨hold, hbefore⟩
      · -- the artifact is the new one, so what is told of it is what the action did
        have hid := cause.id.1
        rcases List.mem_append.mp told with told | told
        · have := hx'.made _ (List.mem_append_left _ told) _ (List.mem_singleton.mpr rfl)
          have := hu.explained.made _ told _ (List.mem_singleton.mpr rfl)
          omega
        · obtain ⟨hstage, hlt⟩ := earlier_of_finished ha told
          cases cause with
          | inserted told' => cases eq_of_mem_events told told'
          | computed m' sources' told' runs key staged accepted =>
            obtain ⟨rfl, -, rfl⟩ := Event.finished.inj (eq_of_mem_events told told')
            simp only [accepts, Bool.and_eq_true] at accepted
            have hcur := isCurrent_iff.mp accepted.2 b hb
            refine noOther_of_stores hs (fun _ => hstage ▸ hlt b hb) (.inr ?_)
            rw [← key]
            exact hcur
      · rcases List.mem_append.mp told with told | told
        · obtain ⟨hstage, hlt⟩ := hu.earlier m _ sources told
          have hs' := hu.explained.valid.staged k s x hold
          refine noOther_of_stores hs (fun hj => ?_) (hu.beside k s x hold m sources told b hb)
          exact (hlt b hb).trans (by rw [← hstage, hs']; exact hbefore hj)
        · have := hu.explained.valid.made k s x hold
          have := (id_of_made told (List.mem_singleton.mpr rfl)).1
          omega

theorem coherentRun_start (lifetime capacity : ℕ) : CoherentRun [] (start lifetime capacity : Usage α) where
  explained := explains_start lifetime capacity
  earlier := by simp
  beside := fun _ _ _ h => nomatch h

/-- No stored artifact ever coexists with another artifact than the one it was computed from. -/
theorem coherent_run (lifetime capacity : ℕ) (acts : List (Action α)) (hacts : ∀ a ∈ acts, a.Derives) :
    Coherent (story acts (start lifetime capacity)) (run acts (start lifetime capacity)) := by
  have h := run_invariant (P := CoherentRun) coherentRun_step acts hacts (coherentRun_start lifetime capacity)
  exact fun k s x hx => ⟨h.explained.slots k s x hx, h.beside k s x hx⟩

/-- A plan is stored beside the analysis that it was made from. -/
theorem coherent_run_plan :
    let k : Key := ⟨"acme", "vaults"⟩
    let acts : List (Action Stage) :=
      [.insert k .analysis, .request k .plan, .finish ⟨0, k, .plan, 0⟩ (.value .plan [⟨0, .analysis⟩] rfl)]
    (∀ a ∈ acts, a.Derives) ∧ Coherent (story acts (start 1000 4)) (run acts (start 1000 4)) ∧
      ((run acts (start 1000 4)).cache.slot? k .plan).isSome := by
  intro k acts
  have hacts : ∀ a ∈ acts, a.Derives := by
    simp [acts, Action.Derives, Yield.sources, Artifact.stage, Staged.stage, Stage.rank]
  exact ⟨hacts, coherent_run 1000 4 acts hacts, by decide +kernel⟩

end ContractMigration.Usage
