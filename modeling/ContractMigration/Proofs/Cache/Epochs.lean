import ContractMigration.Proofs.Cache.Contents

/-! The epochs, the handles and the counters of a cache after each of its operations. Most operations change the entries
only. Epochs never fall; they grow for the stages that are inserted or invalidated, and for all stages of a repository
that has an entry when the cache is cleared. -/

namespace ContractMigration.Cache

variable {α : Type}

/-- Two caches that differ in their entries at most. -/
def SameRest (c c' : Cache α) : Prop := c' = { c with entries := c'.entries }

namespace SameRest

variable {c c' : Cache α}

theorem trans {c'' : Cache α} (h : SameRest c c') (h' : SameRest c' c'') : SameRest c c'' := by
  rw [SameRest] at h h' ⊢
  rw [h', h]

theorem epoch (h : SameRest c c') (k : Key) (s : Stage) : c'.epoch k s = c.epoch k s := by
  rw [h]; rfl

theorem handles (h : SameRest c c') : c'.handles = c.handles := by rw [h]

theorem nextComputation (h : SameRest c c') : c'.nextComputation = c.nextComputation := by rw [h]

theorem nextArtifact (h : SameRest c c') : c'.nextArtifact = c.nextArtifact := by rw [h]

theorem hits (h : SameRest c c') : c'.hits = c.hits := by rw [h]

theorem misses (h : SameRest c c') : c'.misses = c.misses := by rw [h]

theorem dropSlots (c : Cache α) (k : Key) (stages : List Stage) : SameRest c (c.dropSlots k stages) := by
  unfold Cache.dropSlots
  split <;> rfl

theorem expire (c : Cache α) (now : ℕ) (k : Key) (s : Stage) : SameRest c (c.expire now k s) := by
  unfold Cache.expire
  split
  · split_ifs
    · rfl
    · exact dropSlots c k [s]
  · rfl

theorem touch (c : Cache α) (k : Key) : SameRest c (c.touch k) := by
  unfold Cache.touch
  split <;> rfl

theorem store [Staged α] (c : Cache α) (now : ℕ) (k : Key) (a : Artifact α) : SameRest c (c.store now k a) :=
  (dropSlots c k a.stage.downstream).trans rfl

end SameRest

/-! ### Epochs -/

theorem epoch_bump (c : Cache α) (j k : Key) {stages : List Stage} (hn : stages.Nodup) (t : Stage) :
    (c.bump k stages).epoch j t = if j = k ∧ t ∈ stages then c.epoch j t + 1 else c.epoch j t := by
  simp only [epoch, bump, lookup_cons_ite, lookup_filter_ne]
  by_cases hj : j = k
  · subst hj; simp [Slots.get_modify _ hn]
  · simp [hj]

theorem epoch_foldl_bump (ks : List Key) (c : Cache α) (j : Key) (t : Stage) :
    (ks.foldl (fun c k => c.bump k Stage.all) c).epoch j t = c.epoch j t + ks.count j := by
  induction ks generalizing c with
  | nil => simp
  | cons k rest ih =>
    rw [List.foldl_cons, ih, epoch_bump _ _ _ (by decide), List.count_cons]
    by_cases hk : k = j
    · subst hk; simp [Stage.mem_all]; omega
    · simp [hk, Ne.symm hk]

theorem epoch_clear (c : Cache α) (k : Key) (s : Stage) : c.clear.epoch k s = c.epoch k s + c.keys.count k :=
  epoch_foldl_bump c.keys c k s

theorem foldl_bump_frame (ks : List Key) (c : Cache α) :
    ∃ epochs, ks.foldl (fun c k => c.bump k Stage.all) c = { c with epochs := epochs } := by
  induction ks generalizing c with
  | nil => exact ⟨c.epochs, rfl⟩
  | cons k rest ih =>
    obtain ⟨epochs, h⟩ := ih (c.bump k Stage.all)
    exact ⟨epochs, h⟩

theorem clear_frame (c : Cache α) : ∃ epochs, c.clear = { c with entries := [], handles := [], epochs := epochs } := by
  obtain ⟨epochs, h⟩ := foldl_bump_frame c.keys c
  exact ⟨epochs, by rw [clear]; exact congrArg (fun d : Cache α => { d with entries := [], handles := [] }) h⟩

/-- The settings are the same, and no counter and no epoch has fallen. -/
structure Advances (c c' : Cache α) : Prop where
  lifetime : c'.lifetime = c.lifetime
  capacity : c'.capacity = c.capacity
  computations : c.nextComputation ≤ c'.nextComputation
  artifacts : c.nextArtifact ≤ c'.nextArtifact
  epochs : ∀ k s, c.epoch k s ≤ c'.epoch k s

namespace Advances

variable {c c' c'' : Cache α}

theorem refl (c : Cache α) : Advances c c := ⟨rfl, rfl, le_rfl, le_rfl, fun _ _ => le_rfl⟩

theorem trans (h : Advances c c') (h' : Advances c' c'') : Advances c c'' :=
  ⟨h'.lifetime.trans h.lifetime, h'.capacity.trans h.capacity, h.computations.trans h'.computations,
    h.artifacts.trans h'.artifacts, fun k s => (h.epochs k s).trans (h'.epochs k s)⟩

theorem of_sameRest (h : SameRest c c') : Advances c c' := by
  rw [h]
  exact ⟨rfl, rfl, le_rfl, le_rfl, fun _ _ => le_rfl⟩

theorem bump (c : Cache α) (k : Key) {stages : List Stage} (hn : stages.Nodup) : Advances c (c.bump k stages) := by
  refine ⟨rfl, rfl, le_rfl, le_rfl, fun j t => ?_⟩
  rw [epoch_bump c j k hn]
  split_ifs <;> omega

theorem detach (c : Cache α) (k : Key) (stages : List Stage) : Advances c (c.detach k stages) :=
  ⟨rfl, rfl, le_rfl, le_rfl, fun _ _ => le_rfl⟩

theorem clear (c : Cache α) : Advances c c.clear := by
  obtain ⟨epochs, h⟩ := clear_frame c
  refine ⟨by rw [h], by rw [h], by rw [h], by rw [h], fun k s => ?_⟩
  rw [epoch_clear]
  omega

end Advances

theorem epoch_invalidate (c : Cache α) (j k : Key) (s t : Stage) :
    (c.invalidate k s).2.epoch j t = if j = k ∧ s.rank ≤ t.rank then c.epoch j t + 1 else c.epoch j t := by
  rw [invalidate, (SameRest.dropSlots _ k s.andDownstream).epoch]
  exact (epoch_bump c j k (Stage.nodup_andDownstream s) t).trans (by simp [Stage.mem_andDownstream])

/-! ### Handles -/

/-- No two handles are for the same stage of a repository. -/
def OneHandleEach (c : Cache α) : Prop := (c.handles.map fun h => (h.key, h.stage)).Nodup

theorem mem_of_registered? {c : Cache α} {k : Key} {s : Stage} {id : ℕ} (h : c.registered? k s = some id) :
    ⟨k, s, id⟩ ∈ c.handles := by
  obtain ⟨x, hx, rfl⟩ := Option.map_eq_some_iff.mp h
  have hp := List.find?_some hx
  simp only [Bool.and_eq_true, beq_iff_eq] at hp
  obtain ⟨rfl, rfl⟩ := hp
  exact List.mem_of_find?_eq_some hx

theorem registered?_eq_none {c : Cache α} {k : Key} {s : Stage} :
    c.registered? k s = none ↔ ∀ h ∈ c.handles, ¬(h.key = k ∧ h.stage = s) := by
  simp [registered?]

theorem OneHandleEach.eq {c : Cache α} (h : c.OneHandleEach) {x y : Handle} (hx : x ∈ c.handles) (hy : y ∈ c.handles)
    (hk : x.key = y.key) (hs : x.stage = y.stage) : x = y :=
  List.inj_on_of_nodup_map h hx hy (by rw [hk, hs])

/-- A handle is added only where there is none. -/
theorem OneHandleEach.add {c : Cache α} (h : c.OneHandleEach) {k : Key} {s : Stage} (hn : c.registered? k s = none)
    (id : ℕ) : ((c.handles ++ [(⟨k, s, id⟩ : Handle)]).map fun h => (h.key, h.stage)).Nodup := by
  rw [List.map_append, List.nodup_append]
  refine ⟨h, List.nodup_singleton _, ?_⟩
  intro p hp q hq hpq
  obtain ⟨x, hx, rfl⟩ := List.mem_map.mp hp
  rw [List.map_singleton, List.mem_singleton] at hq
  rw [hq, Prod.mk.injEq] at hpq
  exact registered?_eq_none.mp hn x hx hpq

end ContractMigration.Cache
