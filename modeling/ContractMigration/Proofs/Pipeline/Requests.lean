import ContractMigration.Proofs.Cache.Lifetimes
import ContractMigration.Proofs.Pipeline.Tasks
import ContractMigration.Proofs.Session.Tickets

/-! How a request to a pipeline turns out. With a host it always goes to the cache. Without one it is refused at once if
nothing up to the stage can be served; otherwise a tree is served as it is, and the other stages go to the cache. -/

namespace ContractMigration

open Session Usage

/-! ### What can be seen -/

section Looked

variable {I : Interface} {α : Type} [Staged α] {s s' : Session I α}

/-- What is done to answer a request or a look leaves what can be seen as it is, now and later. -/
theorem visible?_use {u : Usage α} (hu : Valid u) {a : Action α} (ha : u.deeds a = []) {now : ℕ}
    (hnow : (u.step a).now ≤ now) (k : Key) (st : Stage) :
    (u.step a).cache.visible? now k st = u.cache.visible? now k st :=
  visible?_step hu (by simp [ha]) hnow

theorem Session.Looked.valid (h : Looked s s') (hs : Valid s.usage) : Valid s'.usage := by
  induction h with
  | refl => exact hs
  | look h k st ih => exact valid_step ih (.peek k st)

omit [Staged α] in
theorem Session.Looked.now (h : Looked s s') : s'.now = s.now := by
  obtain ⟨c, rfl, -⟩ := h.frame
  rfl

/-- A look leaves what can be seen as it is, now and later. -/
theorem Session.Looked.visible? (h : Looked s s') (hs : Valid s.usage) {now : ℕ} (hnow : s.now ≤ now) (k : Key)
    (st : Stage) : s'.cache.visible? now k st = s.cache.visible? now k st := by
  induction h with
  | refl => rfl
  | @look s₁ h j t ih =>
    rw [← ih]
    exact visible?_use (u := s₁.usage) (a := .peek j t) (h.valid hs) rfl (h.now.trans_le hnow) k st

/-- The end of a computation leaves what can be seen of the stages before its own. -/
theorem visible?_land (hs : Valid s.usage) {f : Flight I α} (hf : f ∈ s.flights) (y : Yield α f.computation.stage)
    {st : Stage} (hst : st.rank < f.computation.stage.rank) :
    (s.land f.computation y.made).cache.visible? s.now f.computation.key st =
      s.cache.visible? s.now f.computation.key st := by
  have hu := usage_land hs.ids hf y
  have hnow : (s.usage.step (.finish f.computation y)).now = s.now := congrArg Usage.now hu.symm
  have hlasts := visible?_step hs (lasts_finish (u := s.usage) y hst) hnow.le
  rwa [← hu] at hlasts

end Looked

namespace Pipeline

variable {s : Session Outside Product} {k : Key} {st : Stage}

/-! ### Calls -/

theorem ofStage_task (p : Pipeline) (k : Key) (st : Stage) : (p.task k st).Meets (OfStage st) [] :=
  (p.derives_task k st).mono fun _ _ hr x hx => (hr x hx).1

/-- To look for some stages in order, up to the first that can be served, is to look. -/
theorem looked_anyCached (s : Session Outside Product) (k : Key) (stages : List Stage) :
    Looked s { s with cache := (anyCached s.cache s.now k stages).2 } := by
  have hrest : ∀ s' : Session Outside Product, Looked s s' →
      Looked s { s' with cache := (anyCached s'.cache s'.now k stages).2 } := by
    induction stages with
    | nil => exact fun s' h => h
    | cons t rest ih =>
      intro s' h
      have hnext := h.look k t
      rw [anyCached, Cache.contains]
      dsimp only
      split_ifs
      · exact hnext
      · exact ih _ hnext
  exact hrest s .refl

theorem anyCached_iff (hs : Valid s.usage) (k : Key) (stages : List Stage) :
    (anyCached s.cache s.now k stages).1 = true ↔ ∃ t ∈ stages, s.cache.visible? s.now k t ≠ none := by
  induction stages generalizing s with
  | nil => simp [anyCached]
  | cons t rest ih =>
    have hlook : Looked s { s with cache := s.cache.expire s.now k t } := .look .refl k t
    have hnext := ih (hlook.valid hs)
    rw [anyCached, Cache.contains]
    dsimp only at hnext ⊢
    split_ifs with hfound
    · exact iff_of_true rfl ⟨t, List.mem_cons_self, Option.isSome_iff_ne_none.mp hfound⟩
    · have hnone : s.cache.visible? s.now k t = none := by simpa using hfound
      have hsame : ∀ u, (s.cache.expire s.now k t).visible? s.now k u = s.cache.visible? s.now k u :=
        fun u => hlook.visible? hs le_rfl k u
      simp only [hnext, hsame, List.mem_cons, or_and_right, exists_or, exists_eq_left, hnone, ne_eq, not_true_eq_false,
        false_or]

/-- Nothing up to a stage can be served. -/
def NothingAtHand (c : Cache Product) (now : ℕ) (k : Key) (st : Stage) : Prop :=
  ∀ t, t.rank ≤ st.rank → c.visible? now k t = none

theorem nothingAtHand_tree {c : Cache Product} {now : ℕ} :
    NothingAtHand c now k .tree ↔ c.visible? now k .tree = none := by
  refine ⟨fun h => h .tree le_rfl, fun h t ht => ?_⟩
  have hrank : t.rank = Stage.tree.rank := Nat.le_zero.mp ht
  rwa [Stage.rank_injective hrank]

/-- One stage more. -/
theorem nothingAtHand_next {c : Cache Product} {now : ℕ} {st u : Stage} (hu : u.rank = st.rank + 1) :
    NothingAtHand c now k u ↔ NothingAtHand c now k st ∧ c.visible? now k u = none := by
  refine ⟨fun h => ⟨fun t ht => h t (by omega), h u le_rfl⟩, fun ⟨h, hnone⟩ t ht => ?_⟩
  rcases Nat.lt_or_ge st.rank t.rank with hlt | hle
  · have hrank : t.rank = u.rank := by omega
    rwa [Stage.rank_injective hrank]
  · exact h t hle

/-- Without a host there are three ways for a request. -/
theorem call_cases {p : Pipeline} (hp : p.hasRepository = false) (hs : Valid s.usage) (k : Key) (st : Stage) :
    (NothingAtHand s.cache s.now k st ∧
      ∃ s' reason, Looked s s' ∧ p.call s k st = (.settled (.error (missing k reason)), s')) ∨
    (st = .tree ∧ ∃ x s', s.cache.visible? s.now k .tree = some x ∧ Looked s s' ∧
      p.call s k st = (.settled (.ok x), s')) ∨
    (st ≠ .tree ∧ ¬NothingAtHand s.cache s.now k st ∧
      ∃ s', Looked s s' ∧ p.call s k st = s'.enter k st (p.task k st)) := by
  rw [call, if_neg (by simp [hp])]
  by_cases hst : st = .tree
  · subst hst
    have hlook : Looked s (s.peek k .tree).2 := .look .refl k .tree
    rw [if_pos rfl, nothingAtHand_tree]
    rcases hx : s.cache.visible? s.now k .tree with _ | x
    · refine .inl ⟨rfl, (s.peek k .tree).2, "no repository client configured", hlook, ?_⟩
      simp only [Session.peek, Cache.peek, hx]
    · refine .inr (.inl ⟨rfl, x, (s.peek k .tree).2, rfl, hlook, ?_⟩)
      simp only [Session.peek, Cache.peek, hx]
  · have hlook := looked_anyCached s k st.upToHere
    have hany : (anyCached s.cache s.now k st.upToHere).1 = true ↔ ¬NothingAtHand s.cache s.now k st := by
      rw [anyCached_iff hs, NothingAtHand]
      simp [Stage.upToHere, Stage.mem_all]
    rw [if_neg hst]
    dsimp only
    split_ifs with hfound
    · exact .inr (.inr ⟨hst, hany.mp hfound, _, hlook, rfl⟩)
    · exact .inl ⟨not_not.mp (hany.not.mp hfound), _, _, hlook, rfl⟩

/-- A request for which nothing is at hand is refused at once. -/
theorem call_of_nothingAtHand {p : Pipeline} (hp : p.hasRepository = false) (hs : Valid s.usage)
    (hnone : NothingAtHand s.cache s.now k st) :
    ∃ s' reason, Looked s s' ∧ p.call s k st = (.settled (.error (missing k reason)), s') := by
  rcases call_cases hp hs k st with ⟨-, h⟩ | ⟨rfl, x, -, hx, -⟩ | ⟨-, hat, -⟩
  · exact h
  · rw [nothingAtHand_tree.mp hnone] at hx
    cases hx
  · exact absurd hnone hat

/-- A pipeline asks for stages as a session wants it. -/
theorem lawful_call (p : Pipeline) : Lawful p.call := by
  intro s k st hs
  rcases hp : p.hasRepository with _ | _
  · rcases call_cases hp hs k st with ⟨-, s', reason, hlook, e⟩ | ⟨rfl, x, s', hx, hlook, e⟩ | ⟨-, -, s', hlook, e⟩ <;> rw [e]
    · exact .answers hlook rfl
    · obtain ⟨y, hy, rfl⟩ := Cache.slot?_of_visible? hx
      exact .answers hlook (Artifact.ofStage_eq_ok (hs.staged k .tree y hy))
    · exact .enters hlook (p.ofStage_task k st)
  · rw [call, if_pos hp]
    exact .enters .refl (p.ofStage_task k st)

theorem tracked_play (p : Pipeline) (moves : List (Move Outside Product)) :
    Tracked (play p.call moves (.start p.newCache)).1 (play p.call moves (.start p.newCache)).2 := by
  have hstart : Tracked [] (.start p.newCache : Session Outside Product) := Tracked.start _ _
  exact hstart.play p.lawful_call moves

/-- What a request is served with at once is in its slot. -/
theorem slot?_of_settled {p : Pipeline} (hs : Valid s.usage) {x : Artifact Product}
    (h : (p.call s k st).1 = .settled (.ok x)) : ∃ y, s.cache.slot? k st = some y ∧ y.artifact = x := by
  have hentered : ∀ {s' : Session Outside Product}, Looked s s' → (s'.enter k st (p.task k st)).1 = .settled (.ok x) →
      ∃ y, s.cache.slot? k st = some y ∧ y.artifact = x := by
    intro s' hlook h
    rcases enter_cases s' k st (p.task k st) with ⟨y, hy, e⟩ | ⟨id, -, -, e⟩ | ⟨m, -, -, -, -, e⟩ <;> rw [e] at h
    · rw [hlook.now, hlook.visible? hs le_rfl] at hy
      obtain ⟨z, hz, rfl⟩ := Cache.slot?_of_visible? hy
      have hstage : z.artifact.ofStage st = .ok z.artifact := Artifact.ofStage_eq_ok (hs.staged k st z hz)
      exact ⟨z, hz, Except.ok.inj (hstage.symm.trans (Ticket.settled.inj h))⟩
    · cases h
    · cases h
  rcases hp : p.hasRepository with _ | _
  · rcases call_cases hp hs k st with ⟨-, s', reason, -, e⟩ | ⟨rfl, y, s', hy, -, e⟩ | ⟨-, -, s', hlook, e⟩ <;> rw [e] at h
    · cases h
    · obtain rfl := Except.ok.inj (Ticket.settled.inj h)
      exact Cache.slot?_of_visible? hy
    · exact hentered hlook h
  · rw [call, if_pos hp] at h
    exact hentered .refl h

end Pipeline

end ContractMigration
