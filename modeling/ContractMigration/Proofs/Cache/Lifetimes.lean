import ContractMigration.Proofs.Cache.Steps

/-! How long an artifact lives. The history of a cache tells what was stored and when, what was invalidated, when the cache
was cleared, and which repositories made room for others. From the history alone one can tell what a cache serves: the
artifact that was stored last for a stage, while it is young enough, unless something in the history has ended its life.
Slots that are emptied late, entries that are moved or removed, hits, joins and failures are not to be seen in it. -/

namespace ContractMigration

/-! ### What makes room -/

theorem lookup_drop {β : Type} {es : List (Key × β)} (hn : (es.map Prod.fst).Nodup) (n : ℕ) (k : Key) :
    (es.drop n).lookup k = if k ∈ (es.map Prod.fst).take n then none else es.lookup k := by
  have hsplit := List.take_append_drop n es
  have hkeys := hn
  rw [← hsplit, List.map_append, List.nodup_append] at hkeys
  rw [← List.map_take]
  split_ifs with hk
  · rw [List.lookup_eq_none_iff]
    intro x hx
    exact bne_iff_ne.mpr (hkeys.2.2 k hk x.1 (List.mem_map_of_mem hx))
  · have hnone : (es.take n).lookup k = none := by
      rw [List.lookup_eq_none_iff]
      intro x hx
      exact bne_iff_ne.mpr fun he => hk (he ▸ List.mem_map_of_mem hx)
    conv_rhs => rw [← hsplit, List.lookup_append, hnone, Option.none_or]

namespace Cache

variable {α : Type}

/-- The repositories that make room when something is stored for `k`: those that were not used for the longest time, as
many as are too many. -/
def evicted (c : Cache α) (k : Key) : List Key :=
  let others := c.keys.filter (· != k)
  others.take (others.length + 1 - c.capacity)

theorem not_mem_evicted_self (c : Cache α) (k : Key) : k ∉ c.evicted k := by
  intro h
  simpa using (List.mem_filter.mp (List.mem_of_mem_take h)).2

theorem filter_replaceEntry (es : List (Key × Entry α)) (k : Key) (e : Entry α) :
    (replaceEntry es k e).filter (fun x => x.1 != k) = es.filter fun x => x.1 != k := by
  induction es with
  | nil => rfl
  | cons x rest ih =>
    obtain ⟨i, f⟩ := x
    rw [replaceEntry_cons]
    by_cases hi : i = k
    · rw [if_pos hi, List.filter_cons_of_neg (by simp [hi])]
      split_ifs
      · exact ih
      · rw [List.filter_cons_of_neg (by simp [hi]), ih]
    · rw [if_neg hi, List.filter_cons_of_pos (by simp [hi]), List.filter_cons_of_pos (by simp [hi]), ih]

variable [Staged α]

theorem keys_filled (c : Cache α) (now : ℕ) (k : Key) (a : Artifact α) :
    (c.filled now k a).keys = c.keys.filter (· != k) ++ [k] := by
  have hothers : (c.dropSlots k a.stage.downstream).entries.filter (fun x => x.1 != k) =
      c.entries.filter fun x => x.1 != k := by
    unfold dropSlots
    split
    · rfl
    · exact filter_replaceEntry _ k _
  simp only [keys, filled, hothers, List.map_append, List.map_cons, List.map_nil, List.filter_map, Function.comp_def]

theorem capacity_filled (c : Cache α) (now : ℕ) (k : Key) (a : Artifact α) : (c.filled now k a).capacity = c.capacity := by
  have hd := SameRest.dropSlots c k a.stage.downstream
  rw [SameRest] at hd
  simp only [filled]
  rw [hd]

/-- Everything that storing does to the contents. -/
theorem slot?_store_eq {c : Cache α} (hn : c.keys.Nodup) (hroom : 0 < c.capacity) (now : ℕ) (j k : Key) (a : Artifact α)
    (t : Stage) :
    (c.store now k a).slot? j t =
      if j ∈ c.evicted k then none
      else if j = k ∧ t = a.stage then some ⟨a, now⟩
      else if j = k ∧ a.stage.rank < t.rank then none
      else c.slot? j t := by
  have hkeys := keys_filled c now k a
  have hlength : (c.filled now k a).entries.length = (c.keys.filter (· != k)).length + 1 := by
    rw [← List.length_map Prod.fst]
    exact (congrArg List.length hkeys).trans (by simp)
  have hevicted : (c.filled now k a).keys.take ((c.filled now k a).entries.length - c.capacity) = c.evicted k := by
    rw [hkeys, hlength, List.take_append_of_le_length (by omega)]
    rfl
  rw [← slot?_filled, store_eq, slot?, slot?, entry?, entry?, evict, lookup_drop (nodup_keys_filled hn now k a),
    capacity_filled]
  rw [keys] at hevicted
  rw [hevicted]
  split_ifs <;> rfl

end Cache

/-! ### Histories -/

/-- What happens to the contents of a cache. -/
inductive Deed (α : Type)
  | stored (k : Key) (x : Stored α)
  | invalidated (k : Key) (s : Stage)
  | cleared
  | evicted (k : Key)

/-- What ends the life of what a stage of a repository holds: that an artifact of this stage or of one before it is stored,
that this stage or one before it is invalidated, that the cache is cleared, and that the repository is evicted. -/
def Deed.Ends {α : Type} [Staged α] (k : Key) (s : Stage) : Deed α → Prop
  | .stored j x => j = k ∧ x.artifact.stage.rank ≤ s.rank
  | .invalidated j t => j = k ∧ t.rank ≤ s.rank
  | .cleared => True
  | .evicted j => j = k

namespace Usage

open Cache

variable {α : Type} [Staged α]

/-- An artifact is stored, and repositories are evicted to make room for it. -/
def storing (u : Usage α) (k : Key) (a : Artifact α) : List (Deed α) :=
  .stored k ⟨a, u.now⟩ :: (u.cache.evicted k).map .evicted

/-- What an action does to the contents. Values that are inserted are stored, and so are the results of computations unless
they were overtaken or what they were made from is not current. -/
def deeds (u : Usage α) : Action α → List (Deed α)
  | .insert k v => u.storing k ⟨u.cache.nextArtifact, v⟩
  | .finish m (.value v sources _) =>
    if m ∈ u.running ∧ u.cache.accepts m sources then u.storing m.key ⟨u.cache.nextArtifact, v⟩ else []
  | .invalidate k s => [.invalidated k s]
  | .clear => [.cleared]
  | _ => []

/-- What happens to the contents in a run, in order. -/
def history : List (Action α) → Usage α → List (Deed α)
  | [], _ => []
  | a :: rest, u => u.deeds a ++ history rest (u.step a)

/-- The last thing that was stored for a stage of a repository, if nothing has ended its life since. -/
def Standing (h : List (Deed α)) (k : Key) (s : Stage) (x : Stored α) : Prop :=
  ∃ before since, h = before ++ .stored k x :: since ∧ x.artifact.stage = s ∧ ∀ d ∈ since, ¬d.Ends k s

/-- An artifact that is standing and still young enough. -/
def Alive (h : List (Deed α)) (lifetime now : ℕ) (k : Key) (s : Stage) (a : Artifact α) : Prop :=
  ∃ time, Standing h k s ⟨a, time⟩ ∧ now - time < lifetime

/-! ### What stands -/

theorem standing_append {h h' : List (Deed α)} {k : Key} {s : Stage} {x : Stored α} :
    Standing (h ++ h') k s x ↔ Standing h' k s x ∨ Standing h k s x ∧ ∀ d ∈ h', ¬d.Ends k s := by
  constructor
  · rintro ⟨before, since, e, hs, hsince⟩
    rcases List.append_eq_append_iff.mp e with ⟨mid, rfl, e'⟩ | ⟨mid, rfl, e'⟩
    · exact .inl ⟨mid, since, e', hs, hsince⟩
    · cases mid with
      | nil => exact .inl ⟨[], since, by simpa using e'.symm, hs, hsince⟩
      | cons d mid =>
        obtain ⟨rfl, rfl⟩ := List.cons.inj e'
        exact .inr ⟨⟨before, mid, rfl, hs, fun d hd => hsince d (List.mem_append_left _ hd)⟩,
          fun d hd => hsince d (List.mem_append_right _ hd)⟩
  · rintro (⟨before, since, rfl, hs, hsince⟩ | ⟨⟨before, since, rfl, hs, hsince⟩, hlater⟩)
    · exact ⟨h ++ before, since, by simp, hs, hsince⟩
    · refine ⟨before, since ++ h', by simp, hs, fun d hd => ?_⟩
      exact (List.mem_append.mp hd).elim (hsince d) (hlater d)

theorem not_standing_of_no_store {h : List (Deed α)} {k : Key} {s : Stage} {x : Stored α} (hn : .stored k x ∉ h) :
    ¬Standing h k s x := by
  rintro ⟨before, since, rfl, -⟩
  simp at hn

/-- Where an artifact is stored, it is what stands; its repository is not among those that make room. -/
theorem standing_storing {u : Usage α} {j k : Key} {s : Stage} {a : Artifact α} {x : Stored α} :
    Standing (u.storing j a) k s x ↔ j = k ∧ a.stage = s ∧ x = ⟨a, u.now⟩ := by
  constructor
  · rintro ⟨before, since, e, hs, -⟩
    cases before with
    | nil =>
      obtain ⟨hx, -⟩ := List.cons.inj e
      obtain ⟨rfl, rfl⟩ := Deed.stored.inj hx
      exact ⟨rfl, hs, rfl⟩
    | cons d before =>
      -- behind the first deed there are evictions only
      have hmem : Deed.stored k x ∈ (u.cache.evicted j).map .evicted := by
        rw [(List.cons.inj e).2]
        simp
      simp at hmem
  · rintro ⟨rfl, rfl, rfl⟩
    refine ⟨[], _, rfl, rfl, fun d hd => ?_⟩
    obtain ⟨i, hi, rfl⟩ := List.mem_map.mp hd
    rintro rfl
    exact not_mem_evicted_self u.cache _ hi

theorem lasts_storing {u : Usage α} {j k : Key} {s : Stage} {a : Artifact α} :
    (∀ d ∈ u.storing j a, ¬d.Ends k s) ↔ ¬(j = k ∧ a.stage.rank ≤ s.rank) ∧ k ∉ u.cache.evicted j := by
  rw [storing, List.forall_mem_cons, List.forall_mem_map]
  exact and_congr_right' ⟨fun h hk => h k hk rfl, fun h i hi hik => h (hik ▸ hi)⟩

/-- The end of a computation does not end the life of what an earlier stage holds. -/
theorem lasts_finish {u : Usage α} {m : Computation} (r : Yield α m.stage) {s : Stage} (hs : s.rank < m.stage.rank) :
    ∀ d ∈ u.deeds (.finish m r), ¬d.Ends m.key s := by
  cases r with
  | failure e => simp [deeds]
  | value v sources staged =>
    rw [deeds]
    split_ifs
    · have hstage : (⟨u.cache.nextArtifact, v⟩ : Artifact α).stage = m.stage := staged
      refine lasts_storing.mpr ⟨fun h => ?_, not_mem_evicted_self u.cache m.key⟩
      rw [hstage] at h
      exact absurd h.2 (not_le.mpr hs)
    · simp

/-! ### One action -/

omit [Staged α] in
theorem visible?_eq_some_iff {c : Cache α} {now : ℕ} {k : Key} {s : Stage} {a : Artifact α} :
    c.visible? now k s = some a ↔ ∃ y, c.isFresh now y ∧ c.slot? k s = some y ∧ y.artifact = a := by
  simp [visible?, Option.filter_eq_some_iff, and_assoc, and_left_comm]

omit [Staged α] in
/-- What was younger than the lifetime later on is not dropped for its age now. -/
theorem slot?_expire_iff {c : Cache α} {before now : ℕ} (hnow : before ≤ now) {j k : Key} {s t : Stage} {x : Stored α}
    (hx : c.isFresh now x) : (c.expire before j t).slot? k s = some x ↔ c.slot? k s = some x := by
  rw [slot?_expire]
  split_ifs with h
  · obtain ⟨rfl, rfl⟩ := h
    rw [Option.filter_eq_some_iff, and_iff_left_iff_imp]
    intro _
    simp only [isFresh, decide_eq_true_eq] at hx ⊢
    omega
  · rfl

theorem slot?_store_iff {u : Usage α} (hu : Valid u) {c : Cache α} (hc : c.entries = u.cache.entries)
    (hcap : c.capacity = u.cache.capacity) {j k : Key} {s : Stage} {a : Artifact α} {x : Stored α} :
    (c.store u.now j a).slot? k s = some x ↔
      Standing (u.storing j a) k s x ∨ u.cache.slot? k s = some x ∧ ∀ d ∈ u.storing j a, ¬d.Ends k s := by
  have hkeys : c.keys = u.cache.keys := congrArg (List.map Prod.fst) hc
  have hevicted : c.evicted j = u.cache.evicted j := by rw [evicted, evicted, hkeys, hcap]
  have hstore := slot?_store_eq (hkeys ▸ hu.keys) (hcap ▸ hu.room) u.now k j a s
  rw [hstore, hevicted, slot?_eq_of_entries hc, standing_storing, lasts_storing]
  have hself := not_mem_evicted_self u.cache j
  have hrank : s ≠ a.stage → (a.stage.rank ≤ s.rank ↔ a.stage.rank < s.rank) := fun hne =>
    ⟨fun h => lt_of_le_of_ne h fun he => hne (Stage.rank_injective he).symm, le_of_lt⟩
  by_cases hev : k ∈ u.cache.evicted j
  · have hne : j ≠ k := fun h => hself (h ▸ hev)
    simp [hev, hne]
  · by_cases hkj : k = j
    · subst hkj
      by_cases hs : s = a.stage
      · subst hs
        simp [hev, eq_comm]
      · simp [hev, hs, Ne.symm hs, hrank hs, and_comm]
    · simp [hev, hkj, Ne.symm hkj]

/-- What is held after an action, as far as it is younger than the lifetime later on: what the action stored, and what was
held before unless the action ended its life. -/
theorem slot?_step_iff {u : Usage α} (hu : Valid u) (a : Action α) {now : ℕ} (hnow : (u.step a).now ≤ now) {k : Key}
    {s : Stage} {x : Stored α} (hx : u.cache.isFresh now x) :
    (u.step a).cache.slot? k s = some x ↔
      Standing (u.deeds a) k s x ∨ u.cache.slot? k s = some x ∧ ∀ d ∈ u.deeds a, ¬d.Ends k s := by
  have hnothing : ¬Standing ([] : List (Deed α)) k s x := not_standing_of_no_store List.not_mem_nil
  cases a with
  | request j t =>
    have hreq : (u.cache.request u.now j t).2.slot? k s = some x ↔ u.cache.slot? k s = some x := by
      rcases request_cases u.cache u.now j t with ⟨y, -, e⟩ | ⟨id, -, -, e⟩ | ⟨-, -, e⟩ <;> rw [e]
      · exact Iff.of_eq (congrArg (· = some x) (slot?_touch u.cache k j s))
      · exact slot?_expire_iff hnow hx
      · exact slot?_expire_iff hnow hx
    simpa [deeds, hnothing, step_request] using hreq
  | finish m r =>
    by_cases hm : m ∈ u.running
    · cases r with
      | failure e => simp [deeds, hnothing, step_failure hm]
      | value v sources staged =>
        rw [step_value hm]
        by_cases ha : u.cache.accepts m sources
        · simp only [deeds, hm, ha, and_self, ↓reduceIte]
          exact slot?_store_iff (c := ((u.cache.unregister m).wrap v).2) hu rfl rfl
        · simp [deeds, hnothing, ha]
    · rw [step_finish_of_not_mem hm]
      cases r <;> simp [deeds, hnothing, hm]
  | insert j v => exact slot?_store_iff (c := ((u.cache.wrap v).2.bump j _).detach j _) hu rfl rfl
  | invalidate j t =>
    have hinv : (u.cache.invalidate j t).2.slot? k s = if k = j ∧ s ∈ t.andDownstream then none else u.cache.slot? k s :=
      slot?_dropSlots _ k j _ s
    have hnot : ¬Standing [Deed.invalidated (α := α) j t] k s x := not_standing_of_no_store (by simp)
    simp only [step, deeds, hinv, hnot, false_or, List.forall_mem_singleton, Deed.Ends, Stage.mem_andDownstream]
    by_cases h : k = j ∧ t.rank ≤ s.rank
    · rw [if_pos h]
      simp [h]
    · rw [if_neg h, and_iff_left fun h' => h ⟨h'.1.symm, h'.2⟩]
  | clear =>
    have hnot : ¬Standing [Deed.cleared (α := α)] k s x := not_standing_of_no_store (by simp)
    simp [step, deeds, hnot, Deed.Ends]
  | peek j t =>
    have hpeek : (u.step (.peek j t)).cache.slot? k s = some x ↔ u.cache.slot? k s = some x := slot?_expire_iff hnow hx
    simpa [deeds, hnothing] using hpeek
  | contains j t =>
    have hcontains : (u.step (.contains j t)).cache.slot? k s = some x ↔ u.cache.slot? k s = some x :=
      slot?_expire_iff hnow hx
    simpa [deeds, hnothing] using hcontains
  | wait time => simp [deeds, hnothing, step]

/-- An action that does not end the life of what a stage holds leaves what can be seen of it as it is, now and later. -/
theorem visible?_step {u : Usage α} (hu : Valid u) {a : Action α} {k : Key} {s : Stage}
    (ha : ∀ d ∈ u.deeds a, ¬d.Ends k s) {now : ℕ} (hnow : (u.step a).now ≤ now) :
    (u.step a).cache.visible? now k s = u.cache.visible? now k s := by
  have hlifetime := (advances_step u a).lifetime
  have hnone : ∀ x, ¬Standing (u.deeds a) k s x := by
    rintro x ⟨before, since, e, rfl, -⟩
    exact ha (.stored k x) (by simp [e]) ⟨rfl, le_rfl⟩
  ext x
  rw [visible?_eq_some_iff, visible?_eq_some_iff]
  refine exists_congr fun y => ?_
  have hfresh : (u.step a).cache.isFresh now y = u.cache.isFresh now y := by rw [isFresh, isFresh, hlifetime]
  rw [hfresh]
  refine and_congr_right fun hy => and_congr_left fun _ => ?_
  rw [slot?_step_iff hu a hnow hy, or_iff_right (hnone y), and_iff_left ha]

/-! ### Whole runs -/

/-- What a cache holds, as far as it is or will be younger than the lifetime, is what stands in the history. -/
structure Recorded (h : List (Deed α)) (u : Usage α) : Prop where
  valid : Valid u
  slots : ∀ now, u.now ≤ now → ∀ k s x, u.cache.isFresh now x → (u.cache.slot? k s = some x ↔ Standing h k s x)

theorem recorded_start (lifetime capacity : ℕ) : Recorded [] (start lifetime capacity : Usage α) where
  valid := valid_start lifetime capacity
  slots := fun _ _ _ _ _ _ => ⟨nofun, fun h => absurd h (not_standing_of_no_store List.not_mem_nil)⟩

theorem now_le_step (u : Usage α) (a : Action α) : u.now ≤ (u.step a).now := by
  cases a with
  | finish m r => rw [step]; split_ifs <;> exact le_rfl
  | wait time => exact Nat.le_add_right u.now time
  | _ => exact le_rfl

theorem now_le_run (acts : List (Action α)) (u : Usage α) : u.now ≤ (run acts u).now := by
  induction acts generalizing u with
  | nil => exact le_rfl
  | cons a rest ih => exact (now_le_step u a).trans (ih _)

theorem recorded_step {h : List (Deed α)} {u : Usage α} (hu : Recorded h u) (a : Action α) :
    Recorded (h ++ u.deeds a) (u.step a) where
  valid := valid_step hu.valid a
  slots := by
    intro now hnow k s x hx
    rw [isFresh, (advances_step u a).lifetime] at hx
    rw [slot?_step_iff hu.valid a hnow hx, standing_append, hu.slots now ((now_le_step u a).trans hnow) k s x hx]

theorem recorded_run (acts : List (Action α)) {h : List (Deed α)} {u : Usage α} (hu : Recorded h u) :
    Recorded (h ++ history acts u) (run acts u) := by
  induction acts generalizing h u with
  | nil => simpa [history] using hu
  | cons a rest ih =>
    rw [run_cons, history, ← List.append_assoc]
    exact ih (recorded_step hu a)

theorem Recorded.visible?_iff {h : List (Deed α)} {u : Usage α} (hu : Recorded h u) {k : Key} {s : Stage}
    {a : Artifact α} : u.cache.visible? u.now k s = some a ↔ Alive h u.cache.lifetime u.now k s a := by
  rw [visible?_eq_some_iff]
  constructor
  · rintro ⟨⟨_, time⟩, hfresh, hslot, rfl⟩
    exact ⟨time, (hu.slots u.now le_rfl k s _ hfresh).mp hslot, of_decide_eq_true hfresh⟩
  · rintro ⟨time, hstands, hyoung⟩
    have hfresh : u.cache.isFresh u.now ⟨a, time⟩ := decide_eq_true hyoung
    exact ⟨⟨a, time⟩, hfresh, (hu.slots u.now le_rfl k s _ hfresh).mpr hstands, rfl⟩

/-- What can be seen of a stage at the end of a run, by a peek, by a question whether there is anything, or by a request
that is served: just the artifact that is alive by the history. An action that does not end its life in the history changes
nothing of what can be seen then or at any later time. -/
theorem seen_iff_alive (lifetime capacity : ℕ) (acts : List (Action α)) (k : Key) (s : Stage) :
    let u := run acts (start lifetime capacity)
    let h := history acts (start lifetime capacity)
    (∀ a, (u.cache.peek u.now k s).1 = some a ↔ Alive h lifetime u.now k s a) ∧
      ((u.cache.contains u.now k s).1 = true ↔ ∃ a, Alive h lifetime u.now k s a) ∧
      (∀ a, (u.cache.request u.now k s).1 = .hit a ↔ Alive h lifetime u.now k s a) ∧
      ∀ act, (∀ d ∈ u.deeds act, ¬d.Ends k s) → ∀ now, (u.step act).now ≤ now →
        (u.step act).cache.visible? now k s = u.cache.visible? now k s := by
  intro u h
  have hu : Recorded h u := recorded_run acts (recorded_start lifetime capacity)
  have hlifetime : u.cache.lifetime = lifetime := (advances_run acts (start lifetime capacity)).lifetime
  have hvisible : ∀ a, u.cache.visible? u.now k s = some a ↔ Alive h lifetime u.now k s a :=
    fun a => hlifetime ▸ hu.visible?_iff
  refine ⟨hvisible, ?contains, fun a => ?request, fun act hact now hnow => visible?_step hu.valid hact hnow⟩
  case contains => exact Option.isSome_iff_exists.trans (exists_congr hvisible)
  case request =>
    rw [← hvisible]
    rcases request_cases u.cache u.now k s with ⟨x, hx, e⟩ | ⟨id, hx, -, e⟩ | ⟨hx, -, e⟩ <;> rw [e, hx]
    · simp
    · simp
    · simp

end Usage

end ContractMigration
