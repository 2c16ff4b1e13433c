import ContractMigration.Proofs.Pipeline.Warming

/-! From an empty cache everything is done once. While a cache fills, no stage is computed a second time, since it is either
held by then or being computed; so each service of a collaborator is used once at most, and everybody who has asked for a
stage is told the same. -/

namespace ContractMigration

open Session Usage

theorem Service.quota_le_one (c : Service) (st : Stage) : c.quota st ≤ 1 := by
  rw [quota]
  split_ifs <;> omega

theorem Service.quota_of_ne (c : Service) {st : Stage} (h : c.stage ≠ st) : c.quota st = 0 := if_neg h

namespace Pipeline

/-! ### What is used -/

/-- A service was used at most once so far, and the computations that run use it only if it was not used yet. -/
structure Sparing (k : Key) (c : Service) (qs : List Question) (s : Session Outside Product) : Prop where
  once : qs.countP (Question.uses c) ≤ 1
  unused : s.cache.slot? k c.stage = none → (∀ f ∈ s.flights, f.computation.stage ≠ c.stage) →
    qs.countP (Question.uses c) = 0
  left : ∀ f ∈ s.flights,
    f.position.AtMost (Question.uses c) (c.quota f.computation.stage - qs.countP (Question.uses c))

namespace Sparing

variable {p : Pipeline} {k : Key} {c : Service} {H : List (Session.Event Product)} {qs : List Question}
  {s s' : Session Outside Product}

theorem start (p : Pipeline) (k : Key) (c : Service) : Sparing k c [] (.start p.newCache) where
  once := Nat.zero_le _
  unused := fun _ _ => rfl
  left := fun _ h => nomatch h

/-- Who starts a computation of a stage finds that it is not held, and that nobody computes it. -/
theorem enter (hs : Sparing k c qs s) (hw : Warming k H s) (p : Pipeline) (st : Stage) :
    Sparing k c qs (s.enter k st (p.task k st)).2 := by
  obtain ⟨-, hslot⟩ := hw.enter p st
  have hold : ∀ f ∈ s.flights, f ∈ (s.enter k st (p.task k st)).2.flights := fun f hf => mem_flights_enter.mpr (.inl hf)
  refine ⟨hs.once, fun hempty hnone => ?unused, fun f hf => ?left⟩
  case unused =>
    rw [hslot] at hempty
    exact hs.unused hempty fun f hf => hnone f (hold f hf)
  case left =>
    rcases mem_flights_enter.mp hf with hf | ⟨hstart, hpos⟩
    · exact hs.left f hf
    · have huses := uses_task c p k st
      rw [hpos, (eq_of_start hstart).2.2]
      by_cases hst : c.stage = st
      · obtain ⟨hnone, hregistered⟩ := (request_start_iff s.cache s.now k st).mp ⟨_, hstart⟩
        rw [hw.visible?_eq, Option.map_eq_none_iff, ← hst] at hnone
        have hcount := hs.unused hnone fun g hg hgst => by
          obtain ⟨hkey, -, -, hhandle⟩ := hw.cold.running _ (mem_running hg)
          exact Cache.registered?_eq_none.mp hregistered _ hhandle ⟨rfl, hgst.trans hst⟩
        rwa [hcount]
      · rw [Service.quota, if_neg hst] at huses ⊢
        rwa [Nat.zero_sub]

theorem call (hs : Sparing k c qs s) (hw : Warming k H s) (hp : p.hasRepository = true) {st : Stage} {t : Ticket Product}
    (hc : p.call s k st = (t, s')) : Sparing k c qs s' := by
  have hentered := hs.enter hw p st
  rw [Pipeline.call, if_pos hp] at hc
  rwa [hc] at hentered

/-- A computation goes on with some questions answered. -/
theorem place (hs : Sparing k c qs s) (hw : Warming k H s) (ht : Tracked H s) {f : Flight Outside Product}
    (hf : f ∈ s.flights) {pos : Position Outside Product} {answered : List Question}
    (hcount : answered.countP (Question.uses c) ≤ c.quota f.computation.stage - qs.countP (Question.uses c))
    (hpos : pos.AtMost (Question.uses c)
      (c.quota f.computation.stage - qs.countP (Question.uses c) - answered.countP (Question.uses c))) :
    Sparing k c (qs ++ answered) (s.place f.computation.id pos) := by
  have hquota := c.quota_le_one f.computation.stage
  have honce := hs.once
  refine ⟨?once, fun hempty hnone => ?unused, fun f' hf' => ?left⟩
  case once =>
    rw [List.countP_append]
    omega
  case unused =>
    have hnone' : ∀ g ∈ s.flights, g.computation.stage ≠ c.stage := fun g hg => by
      have hrunning := mem_running hg
      rw [← usage_place s f.computation.id pos] at hrunning
      obtain ⟨g', hg', hc⟩ := List.mem_map.mp hrunning
      exact hc ▸ hnone g' hg'
    have hzero := c.quota_of_ne (hnone' f hf).symm
    rw [List.countP_append, hs.unused hempty hnone']
    omega
  case left =>
    rcases flights_place_cases ht.valid.ids hf hf' with rfl | ⟨hg, hid⟩
    · rw [List.countP_append, ← Nat.sub_sub]
      exact hpos
    · -- of two computations one at most is for the stage that uses the service
      have hne : f'.computation.stage ≠ f.computation.stage := fun he =>
        hid (congrArg Computation.id (hw.cold.eq_of_stage ht.valid (mem_running hg) (mem_running hf) he))
      have hsame : c.quota f'.computation.stage - (qs ++ answered).countP (Question.uses c) =
          c.quota f'.computation.stage - qs.countP (Question.uses c) := by
        rw [List.countP_append]
        by_cases hst : c.stage = f'.computation.stage
        · have hzero := c.quota_of_ne fun he => hne (hst.symm.trans he)
          omega
        · rw [c.quota_of_ne hst, Nat.zero_sub, Nat.zero_sub]
      rw [hsame]
      exact hs.left f' hg

/-- A computation goes on with nothing answered. -/
theorem reads (hs : Sparing k c qs s) (hw : Warming k H s) (ht : Tracked H s) {f : Flight Outside Product}
    (hf : f ∈ s.flights) {pos : Position Outside Product}
    (hpos : pos.AtMost (Question.uses c) (c.quota f.computation.stage - qs.countP (Question.uses c))) :
    Sparing k c qs (s.place f.computation.id pos) := by
  have hplaced : Sparing k c (qs ++ []) (s.place f.computation.id pos) := hs.place hw ht hf (Nat.zero_le _) hpos
  rwa [List.append_nil] at hplaced

/-- A computation ends, and what it was for is held then. -/
theorem land (hs : Sparing k c qs s) (ht : Tracked H s) {f : Flight Outside Product} (hf : f ∈ s.flights)
    {r : Made Product} (hkeeps : Cache.KeepsAll k s.cache (s.land f.computation r).cache)
    (hheld : (s.land f.computation r).cache.slot? k f.computation.stage ≠ none) :
    Sparing k c qs (s.land f.computation r) := by
  refine ⟨hs.once, fun hempty hnone => ?_, fun g hg => hs.left g (List.mem_of_mem_filter hg)⟩
  refine hs.unused (not_not.mp fun h => hkeeps.ne_none h hempty) fun g hg hst => ?_
  by_cases hid : g.computation.id = f.computation.id
  · rw [List.inj_on_of_nodup_map ht.valid.ids (mem_running hg) (mem_running hf) hid] at hst
    exact hheld (hst ▸ hempty)
  · exact hnone g (List.mem_filter.mpr ⟨hg, bne_iff_ne.mpr hid⟩) hst

theorem progress (hs : Sparing k c qs s) (hw : Warming k H s) (ht : Tracked H s) (hp : p.hasRepository = true)
    {f : Flight Outside Product} (hf : f ∈ s.flights) {E : List (Session.Event Product)} {answered : List Outside.Query}
    (h : Progress p.call s f E answered s') (hok : ∀ m e, .ended m (.error e) ∉ E) :
    Sparing k c (qs ++ answered) s' := by
  have hleft := hs.left f hf
  have hrelies := (hw.flights f hf).relies
  cases h with
  | stays => rwa [List.append_nil]
  | ends r hpos =>
    rw [List.append_nil]
    obtain ⟨hw', hkeeps⟩ := hw.progress ht hp hf (.ends r hpos) hok
    have ht' := ht.progress p.lawful_call hf (.ends r hpos)
    refine hs.land ht hf hkeeps ?_
    rcases hr : (s.cache.complete s.now f.computation r).1 with e | x
    · exact absurd (List.mem_singleton.mpr (by rw [hr])) (hok f.computation e)
    · have hended : Session.Event.ended f.computation (.ok x) ∈
          H ++ [.ended f.computation (s.cache.complete s.now f.computation r).1] := by simp [hr]
      obtain ⟨y, hy, -⟩ := hw'.kept _ x hended
      rw [← ht'.staged _ x hended, hy]
      exact nofun
  | goesOn pos qs' h =>
    obtain ⟨hcount, hpos⟩ := h.atMost hleft
    exact hs.place hw ht hf hcount hpos
  | isServed j st next hpos r s₁ hc =>
    rw [hpos] at hleft hrelies
    obtain rfl : j = k := hrelies.1.1
    obtain ⟨hw₁, ht₁, -, hfl⟩ := hw.call ht hp hc
    rw [List.append_nil]
    exact (hs.call hw hp hc).reads hw₁ ht₁ (hfl f hf) (hleft r)
  | waits j st next hpos other s₁ hc =>
    rw [hpos] at hleft hrelies
    obtain rfl : j = k := hrelies.1.1
    obtain ⟨hw₁, ht₁, -, hfl⟩ := hw.call ht hp hc
    rw [List.append_nil]
    exact (hs.call hw hp hc).reads hw₁ ht₁ (hfl f hf) fun r => hleft _
  | looks j st next hpos =>
    rw [hpos] at hleft
    rw [hw.peek_eq, List.append_nil]
    exact hs.reads hw ht hf (hleft _)
  | isTold other next hpos r hr =>
    rw [hpos] at hleft
    rw [List.append_nil]
    exact hs.reads hw ht hf (hleft r)

theorem moved (hs : Sparing k c qs s) (hw : Warming k H s) (ht : Tracked H s) (hp : p.hasRepository = true)
    {a : Move Outside Product} (ha : OnlyFor k a) (hok : ∀ m e, .ended m (.error e) ∉ (s.moved p.call a).1) :
    Sparing k c (qs ++ s.asked a) (s.moved p.call a).2 := by
  have hquiet : Sparing k c (qs ++ []) s := by rwa [List.append_nil]
  cases a with
  | ask j st =>
    obtain rfl : j = k := ha
    have hcalled : Sparing j c qs (p.call s j st).2 := hs.call hw hp rfl
    rwa [← List.append_nil qs] at hcalled
  | go id answer =>
    rcases progress_go p.call s id answer with ⟨f, hf, -, h⟩ | ⟨e, e'⟩
    · exact hs.progress hw ht hp hf h hok
    · rwa [e, e']
  | insert j v => exact ha.elim
  | invalidate j st => exact ha.elim
  | clear => exact ha.elim
  | peek j st => rwa [Session.moved, hw.peek_eq]
  | contains j st => rwa [Session.moved, Cache.contains, hw.expire_eq]
  | wait time => exact ⟨hquiet.once, hquiet.unused, hquiet.left⟩
  | attend callers rung round => exact ⟨hquiet.once, hquiet.unused, hquiet.left⟩

/-- Questions without an answer count, too: whoever asks one has found the service unused, and is the only one who may use
it. -/
theorem countP_pending (hs : Sparing k c qs s) (hw : Warming k H s) (ht : Tracked H s) :
    (qs ++ s.pending).countP (Question.uses c) ≤ 1 := by
  have hasking : ∀ f ∈ s.flights, (f.question?.map (Question.uses c)).getD false = true →
      f.computation.stage = c.stage ∧ qs.countP (Question.uses c) = 0 := by
    intro f hf hasks
    obtain ⟨q, hq, huses⟩ : ∃ q, f.question? = some q ∧ Question.uses c q = true := by
      simpa [Option.getD_eq_iff] using hasks
    have hpositive := (hs.left f hf).pos hq huses
    have hquota := c.quota_le_one f.computation.stage
    refine ⟨not_not.mp fun hne => ?_, by omega⟩
    have hzero := c.quota_of_ne (Ne.symm hne)
    omega
  have hone : s.flights.countP (fun f => f.computation.stage == c.stage) ≤ 1 := by
    have hcount := List.nodup_iff_count_le_one.mp (hw.nodup_stages ht) c.stage
    rwa [List.count, List.countP_map] at hcount
  rw [List.countP_append, Session.pending, List.countP_filterMap]
  rcases Nat.eq_zero_or_pos (qs.countP (Question.uses c)) with hzero | hpos
  · rw [hzero, Nat.zero_add]
    exact (List.countP_mono_left fun f hf hasks => beq_iff_eq.mpr (hasking f hf hasks).1).trans hone
  · have hnobody : s.flights.countP (fun f => (f.question?.map (Question.uses c)).getD false) = 0 :=
      List.countP_eq_zero.mpr fun f hf hasks => hpos.ne' (hasking f hf hasks).2
    rw [hnobody]
    exact hs.once

theorem play (hs : Sparing k c qs s) (hw : Warming k H s) (ht : Tracked H s) (hp : p.hasRepository = true)
    {moves : List (Move Outside Product)} (hmoves : ∀ a ∈ moves, OnlyFor k a) (h : Smooth p moves s) :
    Sparing k c (qs ++ inquiries p.call moves s) (Session.play p.call moves s).2 := by
  induction moves generalizing H qs s with
  | nil => rwa [inquiries, List.append_nil]
  | cons a rest ih =>
    rw [List.forall_mem_cons] at hmoves
    obtain ⟨hfine, hyoung, hrest⟩ := h.cons ht
    obtain ⟨hmoved, -⟩ := hw.moved ht hp hmoves.1 hfine hyoung
    rw [inquiries, ← List.append_assoc]
    exact ih (hs.moved hw ht hp hmoves.1 hfine) hmoved (ht.moved p.lawful_call a) hmoves.2 hrest

end Sparing

/-- From an empty cache everything is done once. In a session of a pipeline with a host that is about one repository, in
which no computation fails, and which lasts for less time than artifacts live: whatever requests there are, and in whatever
order they go on, each service is asked at most once, counting what is not answered yet. And everybody who has asked for a
stage either was told the one artifact that is held for it, and then the stages before it are held, too, or waits for a
computation of this stage that still runs. -/
theorem once_from_empty (p : Pipeline) (hp : p.hasRepository = true) (k : Key) (moves : List (Move Outside Product))
    (hmoves : ∀ a ∈ moves, OnlyFor k a)
    (hok : ∀ m e, .ended m (.error e) ∉ (play p.call moves (.start p.newCache)).1)
    (hyoung : (play p.call moves (.start p.newCache)).2.now < p.newCache.lifetime) :
    let whole := (play p.call moves (.start p.newCache)).2
    (∀ c, (inquiries p.call moves (.start p.newCache) ++ whole.pending).countP (Question.uses c) ≤ 1) ∧
    ∀ before st after, moves = before ++ .ask k st :: after →
      let ticket := (p.call (play p.call before (.start p.newCache)).2 k st).1
      (∃ x, whole.told? st ticket = some (.ok x) ∧ whole.cache.visible? whole.now k st = some x ∧
        ∀ t, t.rank ≤ st.rank → whole.cache.visible? whole.now k t ≠ none) ∨
      whole.told? st ticket = none ∧ ∃ f ∈ whole.flights,
        ticket = .waiting f.computation.id ∧ f.computation.key = k ∧ f.computation.stage = st := by
  intro whole
  have hstart : Tracked [] (.start p.newCache : Session Outside Product) := Tracked.start _ _
  have hcold : Warming k [] (.start p.newCache) := .start (Nat.zero_lt_of_lt hyoung) _ k
  have hsmooth : Smooth p moves (.start p.newCache) := ⟨hok, hyoung⟩
  obtain ⟨hw, -⟩ := hcold.play hstart hp hmoves hsmooth
  have hs : ∀ c, Sparing k c _ whole := fun c => (Sparing.start p k c).play hcold hstart hp hmoves hsmooth
  refine ⟨fun c => (hs c).countP_pending hw (hstart.play p.lawful_call moves), ?_⟩
  rintro before st after rfl
  rw [List.forall_mem_append, List.forall_mem_cons] at hmoves
  obtain ⟨hbefore, -, hafter⟩ := hmoves
  obtain ⟨hfirst, hrest⟩ := hsmooth.append hstart
  have hmid := hstart.play p.lawful_call before
  obtain ⟨hwmid, -⟩ := hcold.play hstart hp hbefore hfirst
  have hwhole : whole = (play p.call (.ask k st :: after) (play p.call before (.start p.newCache)).2).2 := by
    simp only [whole, play_append]
  have htold := hwmid.told_or_waits hmid hp hafter hrest
  rw [← hwhole] at htold
  rcases htold with ⟨x, htold, rfl, hx⟩ | hwaits
  · exact .inl ⟨x, htold, hw.visible?_of_holds hx⟩
  · exact .inr hwaits

/-- The answers of a host with an empty repository, whose generator is out of order. -/
def emptyHost : (q : Question) → Response q.Answer
  | .metadata k => .ready (.ok ⟨k.owner, k.name, k.url, "main", .open, 0⟩)
  | .tree _ => .ready (.ok (.ofEntries []))
  | .prefetch _ _ => .ready (.ok none)
  | .content _ path => .ready (.error (.internal path))
  | .generate _ => .ready (.error (.internal "out of order"))
  | .transform _ => .ready (.ok "")
  | .clock => .ready ⟨0, 0⟩

/-- While a plan is computed a second caller asks for it and a third one for an analysis, and when no computation runs any
more the second one has got the plan that is held. -/
theorem once_from_empty_plan :
    let p : Pipeline := ⟨.default, true, true, false⟩
    let k : Key := ⟨"acme", "vaults"⟩
    let before : List (Move Outside Product) := [.ask k .plan, .go 0 emptyHost]
    let after : List (Move Outside Product) := [.ask k .analysis, .go 1 emptyHost] ++ List.replicate 5 (.go 2 emptyHost) ++
      List.replicate 6 (.go 1 emptyHost) ++ List.replicate 4 (.go 0 emptyHost)
    let moves := before ++ .ask k .plan :: after
    let whole := (play p.call moves (.start p.newCache)).2
    (∀ c, (inquiries p.call moves (.start p.newCache) ++ whole.pending).countP (Question.uses c) ≤ 1) ∧
      ∃ x, whole.told? .plan (p.call (play p.call before (.start p.newCache)).2 k .plan).1 = some (.ok x) ∧
        whole.cache.visible? whole.now k .plan = some x ∧ whole.cache.visible? whole.now k .tree ≠ none := by
  intro p k before after moves whole
  have hmoves : ∀ a ∈ moves, OnlyFor k a := by simp [moves, before, after, OnlyFor]
  have hrun : ((play p.call moves (.start p.newCache)).1.all fun e => e.ending?.all fun x => x.2.isOk) = true ∧
      whole.now < p.newCache.lifetime ∧ whole.flights.isEmpty = true := by decide +kernel
  obtain ⟨hfine, hyoung, hnobody⟩ := hrun
  obtain ⟨hcount, hserved⟩ := once_from_empty p rfl k moves hmoves
    (fun m e he => absurd (List.all_eq_true.mp hfine _ he) Bool.false_ne_true) hyoung
  rcases hserved before .plan after rfl with ⟨x, htold, hx, hupstream⟩ | ⟨-, f, hf, -⟩
  · exact ⟨hcount, x, htold, hx, hupstream .tree (by decide)⟩
  · exact absurd hf (List.isEmpty_iff.mp hnobody ▸ List.not_mem_nil)

end Pipeline

end ContractMigration
