import ContractMigration.Proofs.Cache.Origins

/-! What was invalidated or replaced does not come back. From then on whoever asks for such a stage, or looks for it,
sees only what was inserted later or made by a computation that was started later. Two things are needed for this. The
epoch of the stage has grown, so what ran already is not stored; and its handle is gone, so nobody joins it. -/

namespace ContractMigration.Usage

open Cache

variable {α : Type} [Staged α]

/-- An artifact that somebody got to see who looked or asked for a stage of a repository: from the cache, or as the result
of the computation that was joined or started. -/
inductive Seen (h : List (Event α)) (k : Key) (s : Stage) (x : Artifact α) : Prop
  | peeked (told : .peeked k s (some x) ∈ h)
  | served (told : .requested k s (.hit x) ∈ h)
  | joined (m : Computation) (sources : List (Artifact α)) (asked : .requested k s (.join m.id) ∈ h)
      (told : .finished m (.ok x) sources ∈ h)
  | started (m : Computation) (sources : List (Artifact α)) (asked : .requested k s (.start m) ∈ h)
      (told : .finished m (.ok x) sources ∈ h)

/-- An artifact of a stage of a repository that was inserted in what has happened, or made by a computation that was
started in it. -/
inductive New (h : List (Event α)) (k : Key) (s : Stage) (x : Artifact α) : Prop
  | inserted (told : .inserted k x ∈ h) (staged : x.stage = s)
  | computed (m : Computation) (sources : List (Artifact α)) (asked : .requested k s (.start m) ∈ h)
      (told : .finished m (.ok x) sources ∈ h)

/-- From a state on, only what is new or what `P` allows is seen of a stage of a repository, and what runs for it at that
state is neither stored nor joined any more. -/
structure OnlyNew (P : Artifact α → Prop) (k : Key) (t : Stage) (u : Usage α) : Prop where
  seen : ∀ acts x, Seen (story acts u) k t x → P x ∨ New (story acts u) k t x
  tested : ∀ acts a, .tested k t true ∈ (run acts u).events a →
    ∃ x, (run acts u).cache.visible? (run acts u).now k t = some x ∧ (P x ∨ New (story acts u) k t x)
  unstored : ∀ acts, ∀ m ∈ u.running, m.key = k → m.stage = t → ∀ r,
    ((run acts u).step (.finish m r)).cache.entries = (run acts u).cache.entries
  unjoined : ∀ acts, ∀ m ∈ u.running, m.key = k → m.stage = t → .requested k t (.join m.id) ∉ story acts u

theorem New.mono {h h' : List (Event α)} (hsub : h ⊆ h') {k : Key} {s : Stage} {x : Artifact α} (n : New h k s x) :
    New h' k s x := by
  cases n with
  | inserted told staged => exact .inserted (hsub told) staged
  | computed m sources asked told => exact .computed m sources (hsub asked) (hsub told)

/-! ### Computations that were overtaken -/

omit [Staged α] in
theorem overtaken_of_advances {c c' : Cache α} (h : Advances c c') {m : Computation} (hm : m.Overtaken c) :
    m.Overtaken c' := hm.trans_le (h.epochs m.key m.stage)

theorem not_accepts_of_overtaken {c : Cache α} {m : Computation} (hm : m.Overtaken c) (sources : List (Artifact α)) :
    ¬c.accepts m sources := by
  intro h
  simp only [accepts, Bool.and_eq_true, decide_eq_true_eq] at h
  exact hm.ne' h.1

/-- The end of a computation that was overtaken leaves what is stored as it is. -/
theorem entries_finish_of_overtaken {u : Usage α} {m : Computation} (hm : m.Overtaken u.cache) (r : Yield α m.stage) :
    (u.step (.finish m r)).cache.entries = u.cache.entries := by
  by_cases hrun : m ∈ u.running
  · cases r with
    | failure e => rw [step_failure hrun]; rfl
    | value v sources staged => rw [step_value hrun, if_neg (not_accepts_of_overtaken hm sources)]; rfl
  · rw [step_finish_of_not_mem hrun]

/-! ### Answers -/

theorem visible?_of_peeked {u : Usage α} {a : Action α} {k : Key} {s : Stage} {x : Artifact α}
    (h : .peeked k s (some x) ∈ u.events a) : u.cache.visible? u.now k s = some x := by
  cases a with
  | peek k' s' =>
    obtain ⟨rfl, rfl, hx⟩ := Event.peeked.inj (List.mem_singleton.mp h)
    exact hx.symm
  | finish m r => cases (eq_finished_of_mem h).2
  | _ => cases List.mem_singleton.mp h

theorem visible?_of_tested {u : Usage α} {a : Action α} {k : Key} {s : Stage} (h : .tested k s true ∈ u.events a) :
    ∃ x, u.cache.visible? u.now k s = some x := by
  cases a with
  | contains k' s' =>
    obtain ⟨rfl, rfl, hx⟩ := Event.tested.inj (List.mem_singleton.mp h)
    exact Option.isSome_iff_exists.mp hx.symm
  | finish m r => cases (eq_finished_of_mem h).2
  | _ => cases List.mem_singleton.mp h

theorem visible?_of_hit {u : Usage α} {a : Action α} {k : Key} {s : Stage} {x : Artifact α}
    (h : .requested k s (.hit x) ∈ u.events a) : u.cache.visible? u.now k s = some x :=
  visible?_of_request (request_of_requested h).2.symm

theorem registered?_of_joined {u : Usage α} {a : Action α} {k : Key} {s : Stage} {id : ℕ}
    (h : .requested k s (.join id) ∈ u.events a) : u.cache.registered? k s = some id := by
  obtain ⟨-, hx⟩ := request_of_requested h
  rcases request_cases u.cache u.now k s with ⟨y, -, e⟩ | ⟨id', -, hid, e⟩ | ⟨-, -, e⟩ <;> rw [e] at hx
  · cases hx
  · rw [hid, Request.join.inj hx]
  · cases hx

/-! ### What is kept from a state on -/

/-- What a stage of a repository holds is new or allowed by `P`, its handles are of new computations, and what else runs
for it was overtaken; so what has been seen of it is new or allowed, and what has been joined is new. -/
structure Renewed (P : Artifact α → Prop) (k : Key) (t : Stage) (h : List (Event α)) (u : Usage α) : Prop where
  keys : u.cache.keys.Nodup
  slot : ∀ x, u.cache.slot? k t = some x → P x.artifact ∨ New h k t x.artifact
  handles : ∀ x ∈ u.cache.handles, x.key = k → x.stage = t → ∃ m, .requested k t (.start m) ∈ h ∧ m.id = x.id
  running : ∀ m ∈ u.running, m.key = k → m.stage = t → m.Overtaken u.cache ∨ .requested k t (.start m) ∈ h
  peeked : ∀ x, .peeked k t (some x) ∈ h → P x ∨ New h k t x
  served : ∀ x, .requested k t (.hit x) ∈ h → P x ∨ New h k t x
  joined : ∀ id, .requested k t (.join id) ∈ h → ∃ m, .requested k t (.start m) ∈ h ∧ m.id = id

namespace Renewed

variable {P : Artifact α → Prop} {k : Key} {t : Stage} {h : List (Event α)} {u : Usage α}

theorem visible (hu : Renewed P k t h u) {x : Artifact α} (hx : u.cache.visible? u.now k t = some x) :
    P x ∨ New h k t x := by
  obtain ⟨y, hy, rfl⟩ := slot?_of_visible? hx
  exact hu.slot y hy

theorem slot_step (hu : Renewed P k t h u) (a : Action α) {x : Stored α}
    (hx : (u.step a).cache.slot? k t = some x) : P x.artifact ∨ New (h ++ u.events a) k t x.artifact := by
  rcases slot?_step hu.keys hx with hx | ⟨hstage, cause⟩
  · exact (hu.slot x hx).imp_right (New.mono (List.subset_append_left _ _))
  · cases cause with
    | inserted told => exact .inr (.inserted (List.mem_append_right _ told) hstage)
    | computed m sources told runs key staged accepted =>
      -- what is accepted was not overtaken, so it is a new computation
      have hnot : ¬m.Overtaken u.cache := fun ho => not_accepts_of_overtaken ho sources accepted
      have hasked := (hu.running m runs key (staged.symm.trans hstage)).resolve_left hnot
      exact .inr (.computed m sources (List.mem_append_left _ hasked) (List.mem_append_right _ told))

theorem step (hu : Renewed P k t h u) (a : Action α) : Renewed P k t (h ++ u.events a) (u.step a) := by
  have mono : ∀ {x}, P x ∨ New h k t x → P x ∨ New (h ++ u.events a) k t x :=
    fun hx => hx.imp_right (New.mono (List.subset_append_left _ _))
  have mono' : ∀ {id}, (∃ m, .requested k t (.start m) ∈ h ∧ m.id = id) →
      ∃ m, .requested k t (.start m) ∈ h ++ u.events a ∧ m.id = id :=
    fun ⟨m, told, hid⟩ => ⟨m, List.mem_append_left _ told, hid⟩
  refine ⟨nodup_keys_step hu.keys a, fun x hx => hu.slot_step a hx, ?handles, ?running, ?peeked, ?served, ?joined⟩
  case handles =>
    intro x hx hk ht
    rcases mem_handles_step hx with hx | ⟨m, told, hid⟩
    · exact mono' (hu.handles x hx hk ht)
    · rw [hk, ht] at told
      exact ⟨m, List.mem_append_right _ told, hid⟩
  case running =>
    intro m hm hk ht
    rcases mem_running_step hm with hm | told
    · exact (hu.running m hm hk ht).imp (overtaken_of_advances (advances_step u a)) (List.mem_append_left _)
    · rw [hk, ht] at told
      exact .inr (List.mem_append_right _ told)
  case peeked =>
    intro x told
    rcases List.mem_append.mp told with told | told
    · exact mono (hu.peeked x told)
    · exact mono (hu.visible (visible?_of_peeked told))
  case served =>
    intro x told
    rcases List.mem_append.mp told with told | told
    · exact mono (hu.served x told)
    · exact mono (hu.visible (visible?_of_hit told))
  case joined =>
    intro id told
    rcases List.mem_append.mp told with told | told
    · exact mono' (hu.joined id told)
    · have hmem := mem_of_registered? (registered?_of_joined told)
      exact mono' (hu.handles _ hmem rfl rfl)

theorem run (hu : Renewed P k t [] u) (acts : List (Action α)) :
    Renewed P k t (story acts u) (Usage.run acts u) :=
  run_keeps (P := Renewed P k t) (fun _ _ a hu => hu.step a) acts hu

/-- Who joins a computation, or starts one, gets what a new computation ends with. -/
theorem seen {H : List (Event α)} (hn : Numbered (H ++ h) u) (hu : Renewed P k t h u) {x : Artifact α}
    (hx : Seen h k t x) : P x ∨ New h k t x := by
  cases hx with
  | peeked told => exact hu.peeked x told
  | served told => exact hu.served x told
  | joined m sources asked told =>
    obtain ⟨m', asked', hid⟩ := hu.joined m.id asked
    have hstart := hn.finished m _ sources (List.mem_append_right _ told)
    obtain rfl := hn.once _ _ m' _ _ m (List.mem_append_right _ asked') hstart hid
    exact .inr (.computed m' sources asked' told)
  | started m sources asked told => exact .inr (.computed m sources asked told)

theorem onlyNew {H : List (Event α)} (hv : Valid u) (hn : Numbered H u) (hu : Renewed P k t [] u) :
    OnlyNew P k t u := by
  refine ⟨fun acts x hx => ?seen, fun acts a told => ?tested, fun acts m hm hk ht r => ?unstored,
    fun acts m hm hk ht told => ?unjoined⟩
  case seen =>
    have hrun : Numbered (H ++ story acts u) (Usage.run acts u) :=
      run_keeps (P := Numbered) (fun _ _ a hu => numbered_step hu a) acts hn
    exact (hu.run acts).seen hrun hx
  case tested =>
    obtain ⟨x, hx⟩ := visible?_of_tested told
    exact ⟨x, hx, (hu.run acts).visible hx⟩
  case unstored =>
    have ho := (hu.running m hm hk ht).resolve_right List.not_mem_nil
    exact entries_finish_of_overtaken (overtaken_of_advances (advances_run acts u) ho) r
  case unjoined =>
    obtain ⟨m', told', hid⟩ := (hu.run acts).joined m.id told
    have := hv.started m hm
    have := le_id_of_started told'
    omega

end Renewed

/-! ### Invalidating and inserting -/

theorem renewed_invalidate {u : Usage α} (hv : Valid u) (k : Key) {s t : Stage} (hst : s.rank ≤ t.rank) :
    Renewed (fun _ => False) k t [] (u.step (.invalidate k s)) := by
  have hmem : t ∈ s.andDownstream := Stage.mem_andDownstream.mpr hst
  refine ⟨nodup_keys_step hv.keys _, fun x hx => ?slot, fun x hx hk ht => ?handles, fun m hm hk ht => .inl ?running,
    by simp, by simp, by simp⟩
  case slot =>
    have hx' : (((u.cache.bump k s.andDownstream).detach k s.andDownstream).dropSlots k s.andDownstream).slot? k t =
      some x := hx
    rw [slot?_dropSlots, if_pos ⟨rfl, hmem⟩] at hx'
    cases hx'
  case handles =>
    have hx' : x ∈ (u.cache.invalidate k s).2.handles := hx
    rw [invalidate, (SameRest.dropSlots _ k _).handles] at hx'
    have := (List.mem_filter.mp hx').2
    simp [hk, ht, hmem] at this
  case running =>
    have he := hv.epochs m hm
    have hg := epoch_invalidate u.cache m.key k s m.stage
    rw [if_pos ⟨hk, ht ▸ hst⟩] at hg
    exact lt_of_le_of_lt he (Nat.lt_of_succ_le hg.ge)

theorem renewed_insert {u : Usage α} (hv : Valid u) (k : Key) (v : α) :
    Renewed (· = (u.cache.insert u.now k v).1) k (Staged.stage v) [] (u.step (.insert k v)) := by
  refine ⟨nodup_keys_step hv.keys _, fun x hx => .inl ?slot, fun x hx hk ht => ?handles, fun m hm hk ht => .inl ?running,
    by simp, by simp, by simp⟩
  case slot =>
    have hs : Stores u.cache (u.cache.insert u.now k v).2 k (u.cache.insert u.now k v).1 :=
      Stores.store (c := ((u.cache.wrap v).2.bump k _).detach k _) hv.keys u.now k _
    rcases hs k (Staged.stage v) x hx with ⟨-, -, e⟩ | ⟨-, hlt⟩
    · exact e
    · exact absurd (hlt rfl) (lt_irrefl _)
  case handles =>
    have hx' : x ∈ (u.cache.insert u.now k v).2.handles := hx
    rw [Cache.insert, (SameRest.store _ u.now k _).handles] at hx'
    have := (List.mem_filter.mp hx').2
    simp [hk, ht, Artifact.stage, wrap] at this
  case running =>
    have he := hv.epochs m hm
    have hg := epoch_insert u.cache u.now m.key k v m.stage
    rw [if_pos ⟨hk, ht⟩] at hg
    exact lt_of_le_of_lt he (Nat.lt_of_succ_le hg.ge)

/-- After an invalidation only what is new is seen of that stage and of those behind it; after an insertion, only what is
new and the artifact itself. -/
theorem onlyNew_of_invalidate_insert (lifetime capacity : ℕ) (before : List (Action α)) :
    let u := run before (start lifetime capacity)
    (∀ k s t, s.rank ≤ t.rank → OnlyNew (fun _ => False) k t (u.step (.invalidate k s))) ∧
      ∀ k v, OnlyNew (· = (u.cache.insert u.now k v).1) k (Staged.stage v) (u.step (.insert k v)) := by
  intro u
  have hv : Valid u := valid_run before (valid_start lifetime capacity)
  have hn : Numbered (story before (start lifetime capacity)) u := numbered_run lifetime capacity before
  refine ⟨fun k s t hst => ?_, fun k v => ?_⟩
  · exact (renewed_invalidate hv k hst).onlyNew (valid_step hv _) (numbered_step hn _)
  · exact (renewed_insert hv k v).onlyNew (valid_step hv _) (numbered_step hn _)

/-- An analysis is made while its tree is invalidated, or while another analysis is inserted. -/
theorem onlyNew_analysis :
    let k : Key := ⟨"acme", "vaults"⟩
    let u : Usage Stage := run [.insert k .tree, .request k .analysis] (start 1000 4)
    ⟨0, k, .analysis, 0⟩ ∈ u.running ∧ Stage.tree.rank ≤ Stage.analysis.rank ∧
      OnlyNew (fun _ => False) k .analysis (u.step (.invalidate k .tree)) ∧
      OnlyNew (· = (u.cache.insert u.now k .analysis).1) k .analysis (u.step (.insert k .analysis)) := by
  intro k u
  have h := onlyNew_of_invalidate_insert 1000 4 [Action.insert k Stage.tree, .request k .analysis]
  exact ⟨by decide, by decide, h.1 k .tree .analysis (by decide), h.2 k .analysis⟩

end ContractMigration.Usage
