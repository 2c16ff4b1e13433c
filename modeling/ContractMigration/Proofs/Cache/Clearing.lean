import ContractMigration.Proofs.Cache.Renewal

/-! What clearing a cache does to the computations that run. Epochs grow for the repositories that have an entry, so what
runs for these is not stored any more. A computation of a repository without an entry loses its handle only: it can still
be stored, and beside it another one that is started for the same stage later. Clearing leaves nothing of what was
before exactly when no such computation runs. -/

namespace ContractMigration.Usage

open Cache

variable {α : Type} [Staged α]

/-- Whether the end of a computation, now or later, can change what is stored. -/
def CanStore (u : Usage α) (m : Computation) : Prop :=
  ∃ acts r, ((run acts u).step (.finish m r)).cache.entries ≠ (run acts u).cache.entries

/-- Every running computation that was not overtaken is of a repository with an entry. -/
def Settled (u : Usage α) : Prop := ∀ m ∈ u.running, ¬m.Overtaken u.cache → m.key ∈ u.cache.keys

/-- Nobody clears the cache but in settled states. -/
def ClearsSettled : List (Action α) → Usage α → Prop
  | [], _ => True
  | a :: rest, u => (a = .clear → Settled u) ∧ ClearsSettled rest (u.step a)

/-- For each stage of a repository there is at most one running computation that can be stored. -/
def OneStorable (u : Usage α) : Prop :=
  ∀ m ∈ u.running, ∀ m' ∈ u.running, m.key = m'.key → m.stage = m'.stage → CanStore u m → CanStore u m' → m = m'

/-! ### Computations that can be stored -/

/-- A computation that was not overtaken can end with a value that is stored. -/
theorem slot?_finish_value {u : Usage α} (hu : Valid u) {m : Computation} (hm : m ∈ u.running)
    (ho : ¬m.Overtaken u.cache) {v : α} (hv : Staged.stage v = m.stage) :
    (u.step (.finish m (.value v [] hv))).cache.slot? m.key m.stage = some ⟨⟨u.cache.nextArtifact, v⟩, u.now⟩ := by
  have hepoch : u.cache.epoch m.key m.stage = m.epoch := le_antisymm (not_lt.mp ho) (hu.epochs m hm)
  have haccepts : u.cache.accepts m [] := by simp [accepts, hepoch, isCurrent]
  rw [step_value hm, if_pos haccepts, ← hv]
  exact slot?_store (c := ((u.cache.unregister m).wrap v).2) hu.room u.now m.key ⟨u.cache.nextArtifact, v⟩

theorem canStore_iff (hα : Function.Surjective (Staged.stage : α → Stage)) {u : Usage α} (hu : Valid u)
    {m : Computation} (hm : m ∈ u.running) : CanStore u m ↔ ¬m.Overtaken u.cache := by
  constructor
  · rintro ⟨acts, r, h⟩ ho
    exact h (entries_finish_of_overtaken (overtaken_of_advances (advances_run acts u) ho) r)
  · intro ho
    obtain ⟨v, hv⟩ := hα m.stage
    refine ⟨[], .value v [] hv, fun (h : (u.step _).cache.entries = u.cache.entries) => ?_⟩
    have hslot := slot?_finish_value hu hm ho hv
    rw [slot?_eq_of_entries h] at hslot
    exact absurd (hu.made _ _ _ hslot) (lt_irrefl _)

theorem overtaken_clear_iff {u : Usage α} (hu : Valid u) {m : Computation} (hm : m ∈ u.running) :
    m.Overtaken u.cache.clear ↔ m.Overtaken u.cache ∨ m.key ∈ u.cache.keys := by
  have he := hu.epochs m hm
  rw [Computation.Overtaken, Computation.Overtaken, epoch_clear, ← List.count_pos_iff]
  omega

/-! ### Handles of computations that can be stored -/

/-- Every running computation that was not overtaken can be joined. -/
def Attached (u : Usage α) : Prop :=
  ∀ m ∈ u.running, ¬m.Overtaken u.cache → ⟨m.key, m.stage, m.id⟩ ∈ u.cache.handles

/-- A handle is removed when its computation ends, when the epoch of its stage grows, or by clearing. -/
theorem handle_kept {u : Usage α} {x : Handle} (hx : x ∈ u.cache.handles) (a : Action α) :
    x ∈ (u.step a).cache.handles ∨ (∃ m r, a = .finish m r ∧ m ∈ u.running ∧ x = ⟨m.key, m.stage, m.id⟩) ∨
      u.cache.epoch x.key x.stage < (u.step a).cache.epoch x.key x.stage ∨ a = .clear := by
  cases a with
  | request k s =>
    rw [step_request]
    rcases request_cases u.cache u.now k s with ⟨y, -, e⟩ | ⟨id, -, -, e⟩ | ⟨-, -, e⟩ <;> rw [e]
    · exact .inl ((SameRest.touch u.cache k).handles ▸ hx)
    · exact .inl ((SameRest.expire u.cache u.now k s).handles ▸ hx)
    · exact .inl (List.mem_append_left _ hx)
  | finish m r =>
    by_cases hm : m ∈ u.running
    · by_cases hxm : x = ⟨m.key, m.stage, m.id⟩
      · exact .inr (.inl ⟨m, r, rfl, hm, hxm⟩)
      · rw [handles_finish hm, List.mem_filter]
        exact .inl ⟨hx, bne_iff_ne.mpr hxm⟩
    · rw [step_finish_of_not_mem hm]
      exact .inl hx
  | insert k v =>
    by_cases hxk : x.key = k ∧ x.stage = Staged.stage v
    · refine .inr (.inr (.inl ?_))
      simp only [step, epoch_insert, if_pos hxk]
      omega
    · refine .inl ?_
      simp only [step, Cache.insert, (SameRest.store _ u.now k _).handles]
      exact List.mem_filter.mpr ⟨hx, by simpa [Artifact.stage, wrap, -not_and, not_and_or] using hxk⟩
  | invalidate k s =>
    by_cases hxk : x.key = k ∧ s.rank ≤ x.stage.rank
    · refine .inr (.inr (.inl ?_))
      simp only [step, epoch_invalidate, if_pos hxk]
      omega
    · refine .inl ?_
      simp only [step, invalidate, (SameRest.dropSlots _ k _).handles]
      exact List.mem_filter.mpr ⟨hx, by simpa [Stage.mem_andDownstream, -not_and, not_and_or] using hxk⟩
  | clear => exact .inr (.inr (.inr rfl))
  | peek k s => exact .inl ((SameRest.expire u.cache u.now k s).handles ▸ hx)
  | contains k s => exact .inl ((SameRest.expire u.cache u.now k s).handles ▸ hx)
  | wait time => exact .inl hx

theorem attached_step {u : Usage α} (hv : Valid u) (hu : Attached u) {a : Action α} (ha : a = .clear → Settled u) :
    Attached (u.step a) := by
  intro m hm ho
  rcases mem_running_step hm with hold | told
  · have ho' : ¬m.Overtaken u.cache := fun h => ho (overtaken_of_advances (advances_step u a) h)
    rcases handle_kept (hu m hold ho') a with h | ⟨m', r, rfl, hm', e⟩ | h | rfl
    · exact h
    · -- what has ended does not run any more
      have hid : m.id = m'.id := congrArg Handle.id e
      obtain rfl := List.inj_on_of_nodup_map hv.ids hold hm' hid
      rw [step, if_pos hm'] at hm
      simp at hm
    · exact absurd ((hv.epochs m hold).trans_lt h) ho
    · exact absurd ((overtaken_clear_iff hv hold).mpr (.inr (ha rfl m hold ho'))) ho
  · obtain ⟨rfl, hstart⟩ := request_of_requested told
    rw [step_request]
    rcases request_cases u.cache u.now m.key m.stage with ⟨y, -, e⟩ | ⟨id, -, -, e⟩ | ⟨-, -, e⟩ <;> rw [e] at hstart ⊢
    · cases hstart
    · cases hstart
    · rw [Request.start.inj hstart]
      exact List.mem_append_right _ (List.mem_singleton.mpr rfl)

theorem attached_run {u : Usage α} (hv : Valid u) (hu : Attached u) {acts : List (Action α)}
    (hacts : ClearsSettled acts u) : Attached (run acts u) := by
  induction acts generalizing u with
  | nil => exact hu
  | cons a rest ih => exact ih (valid_step hv a) (attached_step hv hu hacts.1) hacts.2

/-- Two computations that can be joined for the same stage are one. -/
theorem oneStorable_of_attached (hα : Function.Surjective (Staged.stage : α → Stage)) {u : Usage α} (hv : Valid u)
    (hu : Attached u) : OneStorable u := by
  intro m hm m' hm' hk hs hc hc'
  have hh := hu m hm ((canStore_iff hα hv hm).mp hc)
  have hh' := hu m' hm' ((canStore_iff hα hv hm').mp hc')
  have hid := congrArg Handle.id (hv.handles.eq hh hh' hk hs)
  exact List.inj_on_of_nodup_map hv.ids hm hm' hid

/-! ### Clearing -/

theorem overtaken_clear_of_settled {u : Usage α} (hv : Valid u) (hs : Settled u) :
    ∀ m ∈ u.running, m.Overtaken u.cache.clear := by
  intro m hm
  rw [overtaken_clear_iff hv hm]
  exact or_iff_not_imp_left.mpr (hs m hm)

theorem renewed_clear {u : Usage α} (hv : Valid u) (hs : Settled u) (k : Key) (t : Stage) :
    Renewed (fun _ => False) k t [] (u.step .clear) where
  keys := List.nodup_nil
  slot := fun _ h => nomatch h
  handles := fun _ h => nomatch h
  running := fun m hm _ _ => .inl (overtaken_clear_of_settled hv hs m hm)
  peeked := by simp
  served := by simp
  joined := by simp

theorem attached_clear {u : Usage α} (hv : Valid u) (hs : Settled u) : Attached (u.step .clear) :=
  fun m hm ho => absurd (overtaken_clear_of_settled hv hs m hm) ho

/-- A computation of a repository without an entry is stored after clearing. -/
theorem settled_of_new (hα : Function.Surjective (Staged.stage : α → Stage)) {u : Usage α} (hv : Valid u)
    (h : ∀ acts k s x, (run acts (u.step .clear)).cache.slot? k s = some x →
      New (story acts (u.step .clear)) k s x.artifact) : Settled u := by
  intro m hm ho
  by_contra hk
  have hno : ¬m.Overtaken u.cache.clear := by
    rw [overtaken_clear_iff hv hm]
    exact not_or.mpr ⟨ho, hk⟩
  obtain ⟨v, hstaged⟩ := hα m.stage
  have hslot := slot?_finish_value (valid_step hv .clear) (m := m) hm hno hstaged
  have hnew := h [.finish m (.value v [] hstaged)] m.key m.stage _ hslot
  have hm' : m ∈ (u.step .clear).running := hm
  cases hnew with
  | inserted told => simp [events, hm'] at told
  | computed m' sources asked => simp [events, hm'] at asked

/-- Beside a computation of a repository without an entry another one is started after clearing. -/
theorem settled_of_oneStorable (hα : Function.Surjective (Staged.stage : α → Stage)) {u : Usage α} (hv : Valid u)
    (h : ∀ acts, ClearsSettled acts (u.step .clear) → OneStorable (run acts (u.step .clear))) : Settled u := by
  intro m hm ho
  by_contra hk
  have hno : ¬m.Overtaken u.cache.clear := by
    rw [overtaken_clear_iff hv hm]
    exact not_or.mpr ⟨ho, hk⟩
  have hvc := valid_step hv .clear
  have hvr := valid_step hvc (.request m.key m.stage)
  have hone := h [.request m.key m.stage] ⟨nofun, trivial⟩
  have hstep := step_request (u.step .clear) m.key m.stage
  rcases request_cases (u.step .clear).cache u.now m.key m.stage with ⟨y, hy, -⟩ | ⟨id, -, hid, -⟩ | ⟨-, -, e⟩
  · obtain ⟨z, hz, -⟩ := slot?_of_visible? hy
    cases hz
  · cases hid
  · have hnow : (u.step .clear).now = u.now := rfl
    rw [hnow, e] at hstep
    set m' : Computation := ⟨_, m.key, m.stage, (u.step .clear).cache.epoch m.key m.stage⟩
    have hmem : m ∈ ((u.step .clear).step (.request m.key m.stage)).running := by
      rw [hstep]
      exact List.mem_append_left _ hm
    have hmem' : m' ∈ ((u.step .clear).step (.request m.key m.stage)).running := by
      rw [hstep]
      exact List.mem_append_right _ (List.mem_singleton.mpr rfl)
    have hepoch : ((u.step .clear).step (.request m.key m.stage)).cache.epoch m.key m.stage =
        u.cache.clear.epoch m.key m.stage := by
      rw [hstep]
      exact (SameRest.expire _ _ m.key m.stage).epoch m.key m.stage
    have hc := (canStore_iff hα hvr hmem).mpr (by rw [Computation.Overtaken, hepoch]; exact hno)
    have hc' := (canStore_iff hα hvr hmem').mpr (by rw [Computation.Overtaken, hepoch]; exact lt_irrefl _)
    have heq := congrArg Computation.id (hone m hmem m' hmem' rfl rfl hc hc')
    exact absurd (hvc.started m hm) heq.not_lt

/-- What clearing does, where every stage has values. A computation that runs can be stored afterwards if it was not
overtaken and its repository has no entry. What is held afterwards is new, and at most one computation can be stored for
each stage, exactly when there is no such computation. -/
theorem clear_discards_iff (hα : Function.Surjective (Staged.stage : α → Stage)) (lifetime capacity : ℕ)
    (before : List (Action α)) :
    let u := run before (start lifetime capacity)
    let v := u.step .clear
    (∀ m ∈ u.running, CanStore v m ↔ ¬m.Overtaken u.cache ∧ m.key ∉ u.cache.keys) ∧
      ((∀ acts k s x, (run acts v).cache.slot? k s = some x → New (story acts v) k s x.artifact) ↔ Settled u) ∧
      ((∀ acts, ClearsSettled acts v → OneStorable (run acts v)) ↔ Settled u) := by
  intro u v
  have hu : Valid u := valid_run before (valid_start lifetime capacity)
  have hv : Valid v := valid_step hu .clear
  refine ⟨fun m hm => ?stored, ⟨settled_of_new hα hu, fun hs acts k s x hx => ?new⟩,
    ⟨settled_of_oneStorable hα hu, fun hs acts hacts => ?one⟩⟩
  case stored =>
    have hiff := overtaken_clear_iff hu hm
    exact (canStore_iff hα hv hm).trans ((not_congr hiff).trans not_or)
  case new =>
    have hr := (renewed_clear hu hs k s).run acts
    exact (hr.slot x hx).resolve_left id
  case one =>
    exact oneStorable_of_attached hα (valid_run acts hv) (attached_run hv (attached_clear hu hs) hacts)

/-- A tree that is being made when the cache is cleared can be stored if nothing is held of its repository, and a plan
cannot if an analysis is held. -/
theorem clear_discards_plan :
    let k : Key := ⟨"acme", "vaults"⟩
    let u : Usage Stage := run [.request k .tree] (start 1000 4)
    let w : Usage Stage := run [.insert k .analysis, .request k .plan] (start 1000 4)
    Function.Surjective (Staged.stage : Stage → Stage) ∧ CanStore (u.step .clear) ⟨0, k, .tree, 0⟩ ∧
      ¬CanStore (w.step .clear) ⟨0, k, .plan, 0⟩ := by
  intro k u w
  have hα : Function.Surjective (Staged.stage : Stage → Stage) := fun s => ⟨s, rfl⟩
  have hcold := (clear_discards_iff hα 1000 4 [.request k .tree]).1 ⟨0, k, .tree, 0⟩ (by decide)
  have hwarm := (clear_discards_iff hα 1000 4 [.insert k .analysis, .request k .plan]).1 ⟨0, k, .plan, 0⟩ (by decide)
  refine ⟨hα, hcold.mpr ⟨?_, by decide⟩, fun h => (hwarm.mp h).2 (by decide)⟩
  rw [Computation.Overtaken]
  decide

/-- A tree is asked for, the cache is cleared, and the tree that was asked for before is stored. -/
theorem clear_leaves_cold_computation :
    let k : Key := ⟨"acme", "vaults"⟩
    let m : Computation := ⟨0, k, .tree, 0⟩
    let u : Usage Stage := run [.request k .tree] (start 1000 4)
    let late : Action Stage := .finish m (.value .tree [] rfl)
    m ∈ u.running ∧ ((u.step .clear).step late).cache.slot? k .tree = some ⟨⟨0, .tree⟩, 0⟩ ∧
      ¬New (story [late] (u.step .clear)) k .tree ⟨0, .tree⟩ := by
  intro k m u late
  have hm : m ∈ u.running := by decide
  refine ⟨hm, by rfl, fun h => ?_⟩
  have hm' : m ∈ (u.step .clear).running := hm
  cases h with
  | inserted told => simp [late, events, hm'] at told
  | computed m' sources asked => simp [late, events, hm'] at asked

end ContractMigration.Usage
