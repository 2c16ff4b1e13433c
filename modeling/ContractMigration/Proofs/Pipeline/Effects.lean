import ContractMigration.Proofs.Pipeline.Lineage

/-! What is known of a session of a pipeline is kept, whether something is done with the cache, a computation is started or
moves on, perhaps with something that it has read, or one ends. -/

namespace ContractMigration.Pipeline

open Session Usage

/-- What the story of a session tells of what was done with its cache, unless a computation ended. -/
def told (es : List (Usage.Event Product)) : List (Session.Event Product) :=
  es.filterMap fun
    | .inserted k x => some (.inserted k x)
    | _ => none

theorem no_read_told (es : List (Usage.Event Product)) (id : ℕ) (r : Read Product) : .read id r ∉ told es := by
  intro h
  obtain ⟨e, -, he⟩ := List.mem_filterMap.mp h
  cases e <;> cases he

theorem no_ended_told (es : List (Usage.Event Product)) (m : Computation) (r : Except Failure (Artifact Product)) :
    .ended m r ∉ told es := by
  intro h
  obtain ⟨e, -, he⟩ := List.mem_filterMap.mp h
  cases e <;> cases he

namespace Sound

variable {h : List (Usage.Event Product)} {H : List (Session.Event Product)} {s s' : Session Outside Product}

theorem start (p : Pipeline) : Sound [] [] (.start p.newCache) where
  coherent := coherentRun_start _ _
  numbered := numbered_start _ _
  inserted := by simp
  finished := by simp
  results := fun _ _ h => nomatch h
  read := by simp
  ended := by simp
  flights := fun _ h => nomatch h
  tied := fun _ _ _ _ _ h => nomatch h
  unmixed := fun _ _ h => nomatch h

/-- The cache takes a step, and what the story tells of it are no reads: whatever was inserted, and the end of a computation
that has made something. Whoever runs then has run before, or has a new number and has read nothing. -/
theorem step (hs : Sound h H s) {a : Action Product} (hderives : a.Derives) (hu : s'.usage = s.usage.step a)
    {E : List (Session.Event Product)} (hE : ∀ id r, .read id r ∉ E)
    (hinserted : ∀ k x, .inserted k x ∈ s.usage.events a → .inserted k x ∈ E)
    (hfinished : ∀ m x sources, .finished m (.ok x) sources ∈ s.usage.events a →
      .ended m (.ok x) ∈ E ∧ DerivedBy m.key m.stage (reads H m.id) sources)
    (hresults : ∀ id x, (id, .ok x) ∈ s'.results → (id, .ok x) ∈ s.results ∨ Arisen (h ++ s.usage.events a) x)
    (hended : ∀ m r, .ended m r ∈ E → m.id < s.cache.nextComputation ∧ ∀ f ∈ s'.flights, f.computation.id ≠ m.id)
    (hf : ∀ f ∈ s'.flights, f ∈ s.flights ∨
      f.computation.id = s.cache.nextComputation ∧
        f.position.Meets (Derives f.computation.key f.computation.stage) []) :
    Sound (h ++ s.usage.events a) (H ++ E) s' := by
  have hcache : s'.cache = (s.usage.step a).cache := congrArg Usage.cache hu
  have hnext : s.cache.nextComputation ≤ s'.cache.nextComputation := by
    rw [hcache]
    exact (advances_step s.usage a).computations
  have hquiet : Quiet H E := quiet_of_no_read hE
  have hreads : ∀ id, reads (H ++ E) id = reads H id := fun id => by
    rw [reads_append, reads_eq_nil (hE id), List.append_nil]
  refine ⟨?coherent, ?numbered, ?inserted, ?finished, ?results, ?read, ?ended, ?flights, ?tied, ?unmixed⟩
  case coherent => exact hu ▸ coherentRun_step h s.usage a hderives hs.coherent
  case numbered => exact hu ▸ numbered_step hs.numbered a
  case inserted =>
    intro k x hx
    rcases List.mem_append.mp hx with hx | hx
    · exact List.mem_append_left _ (hs.inserted k x hx)
    · exact List.mem_append_right _ (hinserted k x hx)
  case finished =>
    intro m x sources hx
    rw [hreads]
    rcases List.mem_append.mp hx with hx | hx
    · exact (hs.finished m x sources hx).imp_left (List.mem_append_left _)
    · exact (hfinished m x sources hx).imp_left (List.mem_append_right _)
  case results =>
    intro id x hx
    rcases hresults id x hx with hx | hx
    · exact (hs.results id x hx).mono (List.subset_append_left _ _)
    · exact hx
  case read =>
    intro id r hr
    rcases List.mem_append.mp hr with hr | hr
    · exact (hs.read id r hr).imp (·.trans_le hnext) fun h x hx => (h x hx).mono (List.subset_append_left _ _)
    · exact absurd hr (hE id r)
  case ended =>
    intro m r hr
    rcases List.mem_append.mp hr with hr | hr
    · obtain ⟨hlt, hne⟩ := hs.ended m r hr
      refine ⟨hlt.trans_le hnext, fun f hfl => ?_⟩
      rcases hf f hfl with hold | ⟨hid, -⟩
      · exact hne f hold
      · rw [hid]
        exact hlt.ne'
    · exact (hended m r hr).imp_left (·.trans_le hnext)
  case flights =>
    intro f hfl
    rw [hreads]
    rcases hf f hfl with hold | ⟨hid, hmeets⟩
    · exact hs.flights f hold
    · -- a computation with a new number has read nothing
      have hnone : reads H f.computation.id = [] :=
        reads_eq_nil fun r hr => absurd (hs.read _ r hr).1 (by rw [hid]; exact lt_irrefl _)
      rw [hnone]
      exact hmeets
  case tied =>
    intro id k b r i hid y hy hyb
    rw [hreads] at hid
    exact (hs.tied_step hid (hcache ▸ hy) hyb).mono hquiet
  case unmixed =>
    intro k x hx
    rcases slot?_step hs.valid.keys (hcache ▸ hx) with hold | ⟨hstage, cause⟩
    · exact (hs.unmixed k x hold).mono hquiet
    · cases cause with
      | inserted hin => exact .inserted (List.mem_append_right _ (hinserted k _ hin))
      | computed m sources hin runs key staged accepted =>
        obtain ⟨hended, hder⟩ := hfinished m _ sources hin
        rw [← key]
        exact hs.unmixed_of_accepts hquiet (staged.symm.trans hstage) hder accepted (List.mem_append_right _ hended)
          (hreads _)

/-- Something is done with the cache, and perhaps a computation is started. -/
theorem act (hs : Sound h H s) {a : Action Product} (ha : a.isFinish = false) (hu : s'.usage = s.usage.step a)
    (hr : s'.results = s.results)
    (hf : ∀ f ∈ s'.flights, f ∈ s.flights ∨
      (.requested f.computation.key f.computation.stage (.start f.computation) ∈ s.usage.events a ∧
        f.position.Meets (Derives f.computation.key f.computation.stage) [])) :
    Sound (h ++ s.usage.events a) (H ++ told (s.usage.events a)) s' := by
  have hderives : a.Derives := by
    cases a with
    | finish m r => cases ha
    | _ => trivial
  refine hs.step hderives hu (no_read_told _) (fun k x hx => List.mem_filterMap.mpr ⟨_, hx, rfl⟩)
    (fun m x sources hx => ?finished) (fun id x hx => .inl (hr ▸ hx)) (fun m r hm => absurd hm (no_ended_told _ m r))
    fun f hfl => (hf f hfl).imp_right (.imp_left fun hstart => congrArg Computation.id (start_of_requested hstart).1)
  case finished =>
    obtain ⟨-, v, staged, rfl⟩ := stage_of_finished hx
    cases ha

/-! ### Computations that move on -/

/-- A computation moves on and reads nothing. -/
theorem place (hs : Sound h H s) {f : Flight Outside Product} (hf : f ∈ s.flights) {p : Position Outside Product}
    (hp : p.Meets (Derives f.computation.key f.computation.stage) (reads H f.computation.id)) :
    Sound h H (s.place f.computation.id p) := by
  refine ⟨usage_place s _ p ▸ hs.coherent, usage_place s _ p ▸ hs.numbered, hs.inserted, hs.finished, hs.results,
    hs.read, fun m r hr => ⟨(hs.ended m r hr).1, fun f' hf' => ?ended⟩, fun f' hf' => ?flights, hs.tied, hs.unmixed⟩
  case ended =>
    obtain ⟨g, hg, hc, -⟩ := mem_flights_place hf'
    rw [hc]
    exact (hs.ended m r hr).2 g hg
  case flights =>
    obtain ⟨g, hg, hc, ⟨hid, hpos⟩ | ⟨-, rfl⟩⟩ := mem_flights_place hf'
    · rw [hc, hpos, hs.computation_eq hg hf hid]
      exact hp
    · exact hs.flights f' hg

/-- A computation moves on with something that it has read. -/
theorem placeRead (hs : Sound h H s) {f : Flight Outside Product} (hf : f ∈ s.flights) {p : Position Outside Product}
    {r : Read Product}
    (hp : p.Meets (Derives f.computation.key f.computation.stage) (reads H f.computation.id ++ [r]))
    (harisen : ∀ x ∈ r.artifacts, Arisen h x)
    (hfound : ∀ k i, r = .looked k .tree (some i) → ∃ y, s.cache.slot? k .tree = some y ∧ y.artifact = i) :
    Sound h (H ++ [.read f.computation.id r]) (s.place f.computation.id p) := by
  have hquiet : Quiet H [.read f.computation.id r] := by
    intro m r' hr'
    rw [reads_read, if_neg ((hs.ended m r' hr').2 f hf)]
  refine ⟨usage_place s _ p ▸ hs.coherent, usage_place s _ p ▸ hs.numbered,
    fun k x hx => List.mem_append_left _ (hs.inserted k x hx), ?finished, hs.results, ?read, ?ended, ?flights, ?tied,
    fun k x hx => (hs.unmixed k x hx).mono hquiet⟩
  case finished =>
    intro m x sources hx
    obtain ⟨hended, hder⟩ := hs.finished m x sources hx
    rw [reads_append, hquiet m _ hended, List.append_nil]
    exact ⟨List.mem_append_left _ hended, hder⟩
  case read =>
    intro id r' hr'
    rcases List.mem_append.mp hr' with hr' | hr'
    · exact hs.read id r' hr'
    · obtain ⟨rfl, rfl⟩ := Session.Event.read.inj (List.mem_singleton.mp hr')
      exact ⟨hs.valid.started _ (List.mem_map_of_mem hf), harisen⟩
  case ended =>
    intro m r' hr'
    rcases List.mem_append.mp hr' with hr' | hr'
    · refine ⟨(hs.ended m r' hr').1, fun f' hf' => ?_⟩
      obtain ⟨g, hg, hc, -⟩ := mem_flights_place hf'
      rw [hc]
      exact (hs.ended m r' hr').2 g hg
    · cases List.mem_singleton.mp hr'
  case flights =>
    intro f' hf'
    obtain ⟨g, hg, hc, ⟨hid, hpos⟩ | ⟨hid, rfl⟩⟩ := mem_flights_place hf'
    · rw [hc, hpos, hs.computation_eq hg hf hid, reads_append, reads_read, if_pos rfl]
      exact hp
    · rw [reads_append, reads_read, if_neg (Ne.symm hid), List.append_nil]
      exact hs.flights f' hg
  case tied =>
    intro id k a q i hid y hy hya
    by_cases hne : f.computation.id = id
    · -- the tree has just been found, beside the analysis if that is still there
      rw [reads_append, reads_read, if_pos hne] at hid
      have hlast := congrArg List.getLast? hid
      rw [List.getLast?_concat] at hlast
      obtain ⟨z, hz, rfl⟩ := hfound k i (Option.some.inj hlast)
      rw [← hya]
      exact (hs.madeFrom_of_beside (.inl ⟨rfl, rfl⟩) hy hz).mono hquiet
    · rw [reads_append, reads_read, if_neg hne, List.append_nil] at hid
      exact (hs.tied id k a q i hid y hy hya).mono hquiet

/-! ### Computations that end -/

/-- A computation ends. -/
theorem land (hs : Sound h H s) {f : Flight Outside Product} (hf : f ∈ s.flights) {y : Yield Product f.computation.stage}
    (hy : ∀ x, y.made = .ok x →
      DerivedBy f.computation.key f.computation.stage (reads H f.computation.id) x.2) :
    Sound (h ++ s.usage.events (.finish f.computation y))
      (H ++ [.ended f.computation (s.cache.complete s.now f.computation y.made).1])
      (s.land f.computation y.made) := by
  have hderives : (Action.finish f.computation y).Derives := by
    intro a ha
    cases y with
    | failure e => cases ha
    | value v sources staged => exact (hy (v, sources) rfl).earlier a ha
  have hno : ∀ id r, .read id r ∉ [Session.Event.ended f.computation (s.cache.complete s.now f.computation y.made).1] :=
    fun id r hr => nomatch List.mem_singleton.mp hr
  refine hs.step hderives (usage_land hs.valid.ids hf y) hno (fun k x hx => nomatch (eq_finished_of_mem hx).2) ?finished
    ?results ?ended fun g hg => .inl (List.mem_of_mem_filter hg)
  case finished =>
    intro m x sources hin
    obtain ⟨rfl, hx, hsources⟩ := Usage.Event.finished.inj (eq_finished_of_mem hin).2
    cases y with
    | failure e => cases hx
    | value v sources' staged =>
      have hder := hy (v, sources') rfl
      exact ⟨List.mem_singleton.mpr (congrArg _ hx), hsources ▸ hder⟩
  case results =>
    intro id x hx
    rcases List.mem_cons.mp hx with hx | hx
    · refine .inr ⟨.finished f.computation (.ok x) y.sources, List.mem_append_right _ ?_, List.mem_singleton.mpr rfl⟩
      rw [events, if_pos (mem_running hf), (Prod.mk.inj hx).2]
      exact List.mem_singleton.mpr rfl
    · exact .inl hx
  case ended =>
    intro m r hr
    obtain ⟨rfl, -⟩ := Session.Event.ended.inj (List.mem_singleton.mp hr)
    exact ⟨hs.valid.started _ (mem_running hf), fun g hg => bne_iff_ne.mp (List.mem_filter.mp hg).2⟩

end Sound

end ContractMigration.Pipeline
