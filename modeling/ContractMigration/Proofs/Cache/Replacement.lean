import ContractMigration.Proofs.Cache.Coherence

/-! Artifacts that were replaced. An artifact that has left its slot does not come back, and what comes to be stored from
then on is not made from it. What was made from it before has left its slot with it, if another artifact has taken its
place. So once an artifact is replaced, nothing that is stored for the repository names it any more. -/

namespace ContractMigration.Usage

open Cache

variable {α : Type} [Staged α] {h : List (Event α)} {u : Usage α} {k : Key} {a : Artifact α}

/-- An artifact that came to be is in no slot. -/
structure Gone (a : Artifact α) (u : Usage α) : Prop where
  made : a.id < u.cache.nextArtifact
  absent : ∀ k s x, u.cache.slot? k s = some x → x.artifact.id ≠ a.id

theorem gone_step (hu : Valid u) (ha : Gone a u) (act : Action α) : Gone a (u.step act) where
  made := ha.made.trans_le (advances_step u act).artifacts
  absent := by
    intro k s x hx
    rcases slot?_step hu.keys hx with hold | ⟨-, cause⟩
    · exact ha.absent k s x hold
    · exact cause.id.1 ▸ ha.made.ne'

theorem gone_run (acts : List (Action α)) (hu : Valid u) (ha : Gone a u) : Gone a (run acts u) := by
  induction acts generalizing u with
  | nil => exact ha
  | cons act rest ih => exact ih (valid_step hu act) (gone_step hu ha act)

/-- What is made from an artifact that is gone is not accepted. -/
theorem Gone.isSame_eq_false (ha : Gone a u) {m : Computation} {sources : List (Artifact α)}
    (accepted : u.cache.accepts m sources) : ∀ b ∈ sources, b.isSame a = false := by
  intro b hb
  simp only [accepts, Bool.and_eq_true] at accepted
  obtain ⟨x, hx, hxb⟩ := isCurrent_iff.mp accepted.2 b hb
  refine Bool.eq_false_iff.mpr fun hba => ha.absent _ _ x hx ?_
  exact (Artifact.isSame_iff.mp hxb).2.trans (Artifact.isSame_iff.mp hba).2

/-- Where an artifact was replaced: it is gone, and what is stored for its repository does not name it. -/
structure Forgotten (h : List (Event α)) (u : Usage α) (k : Key) (a : Artifact α) : Prop where
  explained : Explains h u
  gone : Gone a u
  unnamed : ∀ s x, u.cache.slot? k s = some x → ∀ m sources, .finished m (.ok x.artifact) sources ∈ h →
    ∀ b ∈ sources, b.isSame a = false

theorem forgotten_step (hu : Forgotten h u k a) (act : Action α) : Forgotten (h ++ u.events act) (u.step act) k a := by
  have hvalid := hu.explained.valid
  refine ⟨explains_step hu.explained act, gone_step hvalid hu.gone act, fun s x hx m sources told => ?_⟩
  rcases slot?_step hvalid.keys hx with hold | ⟨-, cause⟩
  · rcases List.mem_append.mp told with told | told
    · exact hu.unnamed s x hold m sources told
    · have := hvalid.made k s x hold
      have := (id_of_made told (List.mem_singleton.mpr rfl)).1
      omega
  · rcases List.mem_append.mp told with told | told
    · have := hu.explained.made _ told _ (List.mem_singleton.mpr rfl)
      have := cause.id.1
      omega
    · cases cause with
      | inserted told' => cases eq_of_mem_events told told'
      | computed m' sources' told' runs key staged accepted =>
        obtain ⟨-, -, rfl⟩ := Event.finished.inj (eq_of_mem_events told told')
        exact hu.gone.isSame_eq_false accepted

theorem forgotten_run (acts : List (Action α)) (hu : Forgotten h u k a) :
    Forgotten (h ++ story acts u) (run acts u) k a :=
  run_keeps (P := fun h u => Forgotten h u k a) (fun _ _ act hu => forgotten_step hu act) acts hu

/-- What names a forgotten artifact is not stored. -/
theorem Forgotten.isSame_eq_false (hu : Forgotten h u k a) {m : Computation} {x b : Artifact α}
    {sources : List (Artifact α)} (told : .finished m (.ok x) sources ∈ h) (hb : b ∈ sources) (hba : b.isSame a) :
    ∀ s y, u.cache.slot? k s = some y → y.artifact.isSame x = false := by
  refine fun s y hy => Bool.eq_false_iff.mpr fun hyx => ?_
  have hx : Arisen h x := ⟨_, told, List.mem_singleton_self x⟩
  obtain rfl := (Arisen.of_slot hu.explained hy).eq hu.explained hx (Artifact.isSame_iff.mp hyx).2
  exact Bool.eq_false_iff.mp (hu.unnamed s y hy m sources told b hb) hba

/-- An artifact comes to one repository only. -/
theorem Origin.key_eq (hu : Explains h u) {j : Key} {s t : Stage} {x : Artifact α} (o : Origin h j s x)
    (o' : Origin h k t x) : j = k := by
  have hone : ∀ {e e' : Event α}, e ∈ h → e' ∈ h → x ∈ e.made → x ∈ e'.made → e = e' :=
    fun he he' hx hx' => hu.once _ he _ he' x hx x hx' rfl
  rcases o with ⟨told, -⟩ | ⟨m, sources, told, rfl, -⟩ <;> rcases o' with ⟨told', -⟩ | ⟨m', sources', told', rfl, -⟩ <;>
    cases hone told told' (List.mem_singleton_self x) (List.mem_singleton_self x)
  · rfl
  · rfl

/-- Once another artifact is in its slot, an artifact is forgotten. -/
theorem forgotten_of_replaced (hu : CoherentRun h u) (acts : List (Action α)) (hacts : ∀ act ∈ acts, act.Derives)
    {s : Stage} {x z : Stored α} (hx : u.cache.slot? k s = some x) (hz : (run acts u).cache.slot? k s = some z)
    (hother : z.artifact.isSame x.artifact = false) : Forgotten (h ++ story acts u) (run acts u) k x.artifact := by
  have hlater : CoherentRun (h ++ story acts u) (run acts u) :=
    run_invariant (P := CoherentRun) coherentRun_step acts hacts hu
  have hexplained := hlater.explained
  have harisen : Arisen (h ++ story acts u) x.artifact :=
    (Arisen.of_slot hu.explained hx).mono (List.subset_append_left _ _)
  have hstage : x.artifact.stage = s := hu.explained.valid.staged k s x hx
  refine ⟨hexplained, ⟨harisen.lt hexplained, fun j t y hy hid => ?absent⟩, fun t y hy m sources told b hb => ?unnamed⟩
  case absent =>
    have hsame : y.artifact = x.artifact := (Arisen.of_slot hexplained hy).eq hexplained harisen hid
    have horigin := (hu.explained.slots k s x hx).mono (List.subset_append_left _ (story acts u))
    obtain rfl : j = k := Origin.key_eq hexplained (hsame ▸ hexplained.slots j t y hy) horigin
    obtain rfl : t = s := by rw [← hexplained.valid.staged j t y hy, hsame, hstage]
    obtain rfl := Option.some.inj (hy.symm.trans hz)
    simp [Artifact.isSame, hsame] at hother
  case unnamed =>
    refine Bool.eq_false_iff.mpr fun hba => Bool.eq_false_iff.mp hother ?_
    obtain ⟨hbstage, hbid⟩ := Artifact.isSame_iff.mp hba
    -- what the slot of the source holds now is that very source, and not what has replaced it
    have hbeside := hlater.beside k t y hy m sources told b hb
    rw [NoOther, hbstage, hstage, hz] at hbeside
    obtain ⟨z', hz', hsame⟩ := hbeside.resolve_left (Option.some_ne_none z)
    obtain rfl := Option.some.inj hz'
    obtain ⟨hzstage, hzid⟩ := Artifact.isSame_iff.mp hsame
    exact Artifact.isSame_iff.mpr ⟨hzstage.trans hbstage, hzid.trans hbid⟩

/-! ### Deliveries -/

/-- What a computation has ended with, and the artifacts that this is said to be made from. -/
structure Delivery (α : Type) where
  computation : Computation
  artifact : Artifact α
  sources : List (Artifact α)

/-- The delivery that is told of, if any. -/
def Event.delivery? : Event α → Option (Delivery α)
  | finished m (.ok x) sources => some ⟨m, x, sources⟩
  | _ => none

/-- What was delivered, in order. -/
def deliveries (h : List (Event α)) : List (Delivery α) := h.filterMap Event.delivery?

omit [Staged α] in
theorem mem_deliveries {d : Delivery α} :
    d ∈ deliveries h ↔ .finished d.computation (.ok d.artifact) d.sources ∈ h := by
  rw [deliveries, List.mem_filterMap]
  constructor
  · rintro ⟨e, he, hd⟩
    cases e with
    | finished m r sources =>
      cases r with
      | ok x => cases hd; exact he
      | error f => cases hd
    | _ => cases hd
  · exact fun hd => ⟨_, hd, rfl⟩

/-- Where no computation ends, nothing is delivered. -/
theorem deliveries_story_eq_nil {acts : List (Action α)} (hacts : ∀ act ∈ acts, act.isFinish = false) (u : Usage α) :
    deliveries (story acts u) = [] := by
  induction acts generalizing u with
  | nil => rfl
  | cons act rest ih =>
    rw [List.forall_mem_cons] at hacts
    have hnone : deliveries (u.events act) = [] := by
      cases act with
      | finish m r => cases hacts.1
      | _ => rfl
    rw [story_cons, deliveries, List.filterMap_append, ← deliveries, ← deliveries, hnone, ih hacts.2, List.append_nil]

theorem derives_of_isFinish_eq_false {act : Action α} (hact : act.isFinish = false) : act.Derives := by
  cases act with
  | finish m r => cases hact
  | _ => trivial

/-- A computation that runs did so before, or has been started since. -/
theorem mem_running_run {acts : List (Action α)} {m : Computation} (hm : m ∈ (run acts u).running) :
    m ∈ u.running ∨ u.cache.nextComputation ≤ m.id := by
  induction acts generalizing u with
  | nil => exact .inl hm
  | cons act rest ih =>
    rcases ih hm with hm | hle
    · rcases mem_running_step hm with hm | told
      · exact .inl hm
      · exact .inr (congrArg Computation.id (start_of_requested told).1).ge
    · exact .inr ((advances_step u act).computations.trans hle)

end ContractMigration.Usage
