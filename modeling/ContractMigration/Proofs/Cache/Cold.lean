import ContractMigration.Proofs.Cache.Lifetimes
import ContractMigration.Proofs.Cache.SingleFlight

/-! A cache that was empty at first and is used for one repository only, for less time than artifacts live. What is computed
from what it holds is stored, and nothing that it holds ever goes away: nothing is too old, no repository makes room, no
epoch passes, and a stage is stored before those behind it. -/

namespace ContractMigration

namespace Cache

variable {α : Type}

/-- An artifact that is held for its stage. -/
def Holds [Staged α] (c : Cache α) (k : Key) (a : Artifact α) : Prop := ∃ x, c.slot? k a.stage = some x ∧ x.artifact = a

/-- What is held of a repository is still held. -/
def KeepsAll (k : Key) (c c' : Cache α) : Prop := ∀ s x, c.slot? k s = some x → c'.slot? k s = some x

theorem KeepsAll.of_eq {k : Key} {c c' : Cache α} (h : ∀ s, c'.slot? k s = c.slot? k s) : KeepsAll k c c' :=
  fun s _ hx => (h s).trans hx

theorem KeepsAll.holds [Staged α] {k : Key} {c c' : Cache α} (h : KeepsAll k c c') {a : Artifact α}
    (ha : c.Holds k a) : c'.Holds k a := by
  obtain ⟨x, hx, hxa⟩ := ha
  exact ⟨x, h _ x hx, hxa⟩

theorem KeepsAll.ne_none {k : Key} {c c' : Cache α} (h : KeepsAll k c c') {s : Stage} (hs : c.slot? k s ≠ none) :
    c'.slot? k s ≠ none := by
  obtain ⟨x, hx⟩ := Option.ne_none_iff_exists'.mp hs
  rw [h s x hx]
  exact nofun

/-- Before the first artifact could be too old, everything is fresh. -/
theorem isFresh_of_young {c : Cache α} {now : ℕ} (h : now < c.lifetime) (x : Stored α) : c.isFresh now x = true :=
  decide_eq_true (lt_of_le_of_lt (Nat.sub_le now x.storedAt) h)

theorem expire_of_young {c : Cache α} {now : ℕ} (h : now < c.lifetime) (k : Key) (s : Stage) : c.expire now k s = c := by
  rw [expire]
  split
  · rw [if_pos (isFresh_of_young h _)]
  · rfl

theorem visible?_of_young {c : Cache α} {now : ℕ} (h : now < c.lifetime) (k : Key) (s : Stage) :
    c.visible? now k s = (c.slot? k s).map Stored.artifact := by
  rcases hx : c.slot? k s with _ | x <;> simp [visible?, hx, isFresh_of_young h]

theorem mem_keys_touch {c : Cache α} {j k : Key} (h : j ∈ (c.touch k).keys) : j ∈ c.keys ∨ j = k := by
  rw [touch] at h
  split at h
  · exact .inl h
  · rw [keys, List.map_append, List.mem_append] at h
    refine h.imp (fun h => ?_) List.mem_singleton.mp
    exact (List.filter_sublist.map Prod.fst).subset h

theorem mem_keys_store [Staged α] {c : Cache α} {now : ℕ} {j k : Key} {a : Artifact α} (h : j ∈ (c.store now k a).keys) :
    j ∈ c.keys ∨ j = k := by
  have hfilled : j ∈ (c.filled now k a).keys := ((List.drop_sublist _ _).map Prod.fst).subset h
  rw [keys_filled, List.mem_append] at hfilled
  exact hfilled.imp List.mem_of_mem_filter List.mem_singleton.mp

/-- Where there is no other repository, none makes room. -/
theorem evicted_eq_nil {c : Cache α} {k : Key} (h : ∀ j ∈ c.keys, j = k) : c.evicted k = [] := by
  have hothers : c.keys.filter (· != k) = [] := List.filter_eq_nil_iff.mpr fun j hj => by simp [h j hj]
  rw [evicted, hothers, List.take_nil]

end Cache

namespace Usage

open Cache

variable {α : Type}

/-- What is known of such a cache. -/
structure Cold (k : Key) (u : Usage α) : Prop where
  young : u.now < u.cache.lifetime
  keys : ∀ j ∈ u.cache.keys, j = k
  epochs : ∀ s, u.cache.epoch k s = 0
  /-- Beside each stage the stages before it are held. -/
  closed : ∀ s t, t.rank ≤ s.rank → u.cache.slot? k s ≠ none → u.cache.slot? k t ≠ none
  /-- What is being computed is not held yet, and can be joined. -/
  running : ∀ m ∈ u.running, m.key = k ∧ m.epoch = 0 ∧ u.cache.slot? k m.stage = none ∧
    ⟨k, m.stage, m.id⟩ ∈ u.cache.handles

namespace Cold

variable {k : Key} {u : Usage α}

theorem start {lifetime : ℕ} (h : 0 < lifetime) (capacity : ℕ) (k : Key) : Cold k (Usage.start lifetime capacity : Usage α) where
  young := h
  keys := fun _ h => nomatch h
  epochs := fun s => by cases s <;> rfl
  closed := fun _ _ _ h => absurd rfl h
  running := fun _ h => nomatch h

theorem visible?_eq (hu : Cold k u) (s : Stage) : u.cache.visible? u.now k s = (u.cache.slot? k s).map Stored.artifact :=
  visible?_of_young hu.young k s

/-- No two computations that run are for the same stage. -/
theorem eq_of_stage [Staged α] (hu : Cold k u) (hv : Valid u) {m m' : Computation} (hm : m ∈ u.running)
    (hm' : m' ∈ u.running) (hs : m.stage = m'.stage) : m = m' := by
  obtain ⟨-, -, -, hh⟩ := hu.running m hm
  obtain ⟨-, -, -, hh'⟩ := hu.running m' hm'
  have hid : m.id = m'.id := congrArg Handle.id (hv.handles.eq hh hh' rfl hs)
  exact List.inj_on_of_nodup_map hv.ids hm hm' hid

/-! ### What keeps it so -/

theorem wait (hu : Cold k u) {time : ℕ} (h : u.now + time < u.cache.lifetime) : Cold k { u with now := u.now + time } :=
  { hu with young := h }

/-- A request leaves what is held as it is. -/
theorem request [Staged α] (hu : Cold k u) (s : Stage) :
    Cold k (u.step (.request k s)) ∧ ∀ t, (u.step (.request k s)).cache.slot? k t = u.cache.slot? k t := by
  have hexpire := expire_of_young hu.young k s
  rw [step_request]
  rcases request_cases u.cache u.now k s with ⟨x, -, e⟩ | ⟨id, -, -, e⟩ | ⟨hnone, -, e⟩ <;>
    simp only [e, hexpire, Request.started, List.append_nil]
  · have htouch := SameRest.touch u.cache k
    have hslot : ∀ t, (u.cache.touch k).slot? k t = u.cache.slot? k t := slot?_touch u.cache k k
    refine ⟨⟨?young, ?keys, ?epochs, ?closed, ?running⟩, hslot⟩
    case young => exact (Advances.of_sameRest htouch).lifetime ▸ hu.young
    case keys => exact fun j hj => (mem_keys_touch hj).elim (hu.keys j) id
    case epochs => exact fun t => (htouch.epoch k t).trans (hu.epochs t)
    case closed => exact fun s t hrank hs => hslot t ▸ hu.closed s t hrank (hslot s ▸ hs)
    case running =>
      intro m hm
      obtain ⟨hkey, hepoch, hempty, hhandle⟩ := hu.running m hm
      exact ⟨hkey, hepoch, (hslot m.stage).trans hempty, htouch.handles ▸ hhandle⟩
  · exact ⟨⟨hu.young, hu.keys, hu.epochs, hu.closed, hu.running⟩, fun _ => rfl⟩
  · refine ⟨⟨hu.young, hu.keys, hu.epochs, hu.closed, fun m hm => ?_⟩, fun _ => rfl⟩
    rcases List.mem_append.mp hm with hm | hm
    · obtain ⟨hkey, hepoch, hempty, hhandle⟩ := hu.running m hm
      exact ⟨hkey, hepoch, hempty, List.mem_append_left _ hhandle⟩
    · rw [List.mem_singleton.mp hm]
      rw [hu.visible?_eq, Option.map_eq_none_iff] at hnone
      exact ⟨rfl, hu.epochs s, hnone, List.mem_append_right _ (List.mem_singleton.mpr rfl)⟩

/-- What is made from what is held can be stored. -/
theorem accepts [Staged α] (hu : Cold k u) {m : Computation} (hm : m ∈ u.running) {sources : List (Artifact α)}
    (hsources : ∀ a ∈ sources, u.cache.Holds k a) : u.cache.accepts m sources = true := by
  obtain ⟨rfl, hepoch, -, -⟩ := hu.running m hm
  rw [Cache.accepts, Bool.and_eq_true, decide_eq_true_iff, hu.epochs, hepoch, isCurrent_iff]
  refine ⟨rfl, fun a ha => ?_⟩
  obtain ⟨x, hx, rfl⟩ := hsources a ha
  exact ⟨x, hx, by simp [Artifact.isSame]⟩

/-- What is made from what is held is stored, and everything else stays as it is: what is behind it was not held. -/
theorem slot?_finish [Staged α] (hu : Cold k u) (hv : Valid u) {m : Computation} (hm : m ∈ u.running) {v : α}
    {sources : List (Artifact α)} (staged : Staged.stage v = m.stage) (hsources : ∀ a ∈ sources, u.cache.Holds k a)
    (t : Stage) :
    (u.step (.finish m (.value v sources staged))).cache.slot? k t =
      if t = m.stage then some ⟨⟨u.cache.nextArtifact, v⟩, u.now⟩ else u.cache.slot? k t := by
  obtain ⟨hkey, -, hempty, -⟩ := hu.running m hm
  have hstage : (⟨u.cache.nextArtifact, v⟩ : Artifact α).stage = m.stage := staged
  have hevicted : ((u.cache.unregister m).wrap v).2.evicted k = [] := evicted_eq_nil hu.keys
  have hbehind : m.stage.rank < t.rank → u.cache.slot? k t = none := fun hrank =>
    not_not.mp fun ht => hu.closed t m.stage hrank.le ht hempty
  rw [step_value hm, if_pos (hu.accepts hm hsources)]
  dsimp only
  rw [hkey, slot?_store_eq (c := ((u.cache.unregister m).wrap v).2) hv.keys hv.room, hevicted, if_neg List.not_mem_nil,
    hstage]
  by_cases ht : t = m.stage
  · rw [if_pos ⟨rfl, ht⟩, if_pos ht]
  · rw [if_neg fun h => ht h.2, if_neg ht]
    split_ifs with h
    · exact (hbehind h.2).symm
    · rfl

/-- A computation ends with something made from what is held, after the stages before its own. -/
theorem finish [Staged α] (hu : Cold k u) (hv : Valid u) {m : Computation} (hm : m ∈ u.running) {v : α}
    {sources : List (Artifact α)} (staged : Staged.stage v = m.stage) (hsources : ∀ a ∈ sources, u.cache.Holds k a)
    (hbefore : ∀ t, t.rank < m.stage.rank → u.cache.slot? k t ≠ none) :
    Cold k (u.step (.finish m (.value v sources staged))) ∧
      KeepsAll k u.cache (u.step (.finish m (.value v sources staged))).cache ∧
      (u.step (.finish m (.value v sources staged))).cache.Holds k ⟨u.cache.nextArtifact, v⟩ := by
  have hslot := hu.slot?_finish hv hm staged hsources
  have hhandles := handles_finish hm (.value v sources staged)
  obtain ⟨es, n, hframe, -⟩ := step_finish_frame hm (.value v sources staged)
  obtain ⟨hkey, -, hempty, -⟩ := hu.running m hm
  have hkeeps : KeepsAll k u.cache (u.step (.finish m (.value v sources staged))).cache := by
    intro t x hx
    have hne : t ≠ m.stage := by
      rintro rfl
      exact absurd (hx.symm.trans hempty) nofun
    rw [hslot, if_neg hne, hx]
  have hself : (u.step (.finish m (.value v sources staged))).cache.slot? k m.stage =
      some ⟨⟨u.cache.nextArtifact, v⟩, u.now⟩ := by rw [hslot, if_pos rfl]
  have hheld : (u.step (.finish m (.value v sources staged))).cache.Holds k ⟨u.cache.nextArtifact, v⟩ := by
    have hstage : (⟨u.cache.nextArtifact, v⟩ : Artifact α).stage = m.stage := staged
    exact ⟨⟨⟨u.cache.nextArtifact, v⟩, u.now⟩, by rw [hstage, hself], rfl⟩
  refine ⟨⟨?young, ?keys, ?epochs, ?closed, ?running⟩, hkeeps, hheld⟩
  case young =>
    rw [hframe, step_value hm]
    exact hu.young
  case keys =>
    intro j hj
    rw [step_value hm, if_pos (hu.accepts hm hsources), hkey] at hj
    exact (mem_keys_store (c := ((u.cache.unregister m).wrap v).2) hj).elim (hu.keys j) id
  case epochs =>
    intro s
    rw [hframe]
    exact hu.epochs s
  case closed =>
    intro s t hrank hs
    by_cases ht : t = m.stage
    · rw [ht, hself]
      exact nofun
    · refine hkeeps.ne_none ?_
      rw [hslot] at hs
      split_ifs at hs with h
      · subst h
        exact hbefore t (lt_of_le_of_ne hrank fun he => ht (Stage.rank_injective he))
      · exact hu.closed s t hrank hs
  case running =>
    intro m' hm'
    rw [step, if_pos hm] at hm'
    obtain ⟨hm', hne⟩ := List.mem_filter.mp hm'
    have hne : m' ≠ m := of_decide_eq_true hne
    obtain ⟨hkey', hepoch, hempty', hhandle⟩ := hu.running m' hm'
    have hstage : m'.stage ≠ m.stage := fun hs => hne (hu.eq_of_stage hv hm' hm hs)
    refine ⟨hkey', hepoch, by rw [hslot, if_neg hstage, hempty'], ?_⟩
    rw [hhandles]
    exact List.mem_filter.mpr ⟨hhandle, bne_iff_ne.mpr fun he => hstage (congrArg Handle.stage he)⟩

end Cold

end Usage

end ContractMigration
