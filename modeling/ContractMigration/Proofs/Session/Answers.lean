import ContractMigration.Proofs.Session.Tickets

/-! What a computation is answered by the world, beside what it reads. A routine is judged by what it does while all goes
well: the world answers as it should, and each stage that the routine waits for is made. What is then known of a computation
wherever it stands is known of every computation of a session in which all goes well, and tells what each one ends with. -/

namespace ContractMigration

variable {I : Interface} {α β γ : Type}

/-- A question to the world with its answer. -/
abbrev Answered (I : Interface) := (q : I.Query) × I.Answer q

/-- The answer that is given, at once or later. -/
def Response.value? : Response β → Option β
  | .ready b => some b
  | .later _ b => some b
  | .blocked => none

/-- The world only gives answers as it should, if it gives any. -/
def Session.Move.Serves (fine : (q : I.Query) → I.Answer q → Prop) : Move I α → Prop
  | .go _ answer => ∀ q a, (answer q).value? = some a → fine q a
  | _ => True

/-! ### The answers to a computation -/

/-- The question of a computation with the answer that it gets in a move. -/
def Flight.answered (f : Flight I α) (answer : (q : I.Query) → Response (I.Answer q)) : List (Answered I) :=
  match f.position with
  | .active (.ask q _) => ((answer q).value?.map fun a => ⟨q, a⟩).toList
  | _ => []

namespace Session

/-- What a computation is answered in a move. -/
def answered (s : Session I α) (id : ℕ) : Move I α → List (Answered I)
  | .go i answer => match s.flight? i with
    | some f => if i = id then f.answered answer else []
    | none => []
  | _ => []

/-- What a computation is answered in the course of a session, in order. -/
def answers [Staged α] (call : Session I α → Key → Stage → Ticket α × Session I α) (id : ℕ) :
    List (Move I α) → Session I α → List (Answered I)
  | [], _ => []
  | a :: rest, s => s.answered id a ++ answers call id rest (s.moved call a).2

end Session

/-! ### Routines while all goes well -/

namespace Routine

variable [Staged α]

/-- While answers are fine, and stages that are waited for are made and of a kind, a routine ends with a result that fits to
what it has read and to what it was answered by then. -/
def Fares (fine : (q : I.Query) → I.Answer q → Prop) (wants : Stage → Prop)
    (Q : List (Read α) → List (Answered I) → β → Prop) : List (Read α) → List (Answered I) → Routine I α β → Prop
  | reads, given, done b => Q reads given b
  | reads, given, ask q next => ∀ a, fine q a → Fares fine wants Q reads (given ++ [⟨q, a⟩]) (next a)
  | reads, given, await _ s next =>
    wants s ∧ ∀ x : Artifact α, x.stage = s → Fares fine wants Q (reads ++ [.received (.ok x)]) given (next (.ok x))
  | reads, given, peek k s next => ∀ a, Fares fine wants Q (reads ++ [.looked k s a]) given (next a)
  | reads, given, pause next => Fares fine wants Q reads given next
  | _, _, stall => True

variable {fine : (q : I.Query) → I.Answer q → Prop} {wants : Stage → Prop}
  {P : List (Read α) → List (Answered I) → β → Prop} {Q : List (Read α) → List (Answered I) → γ → Prop}

theorem Fares.mono {R : List (Read α) → List (Answered I) → β → Prop} {r : Routine I α β} {reads : List (Read α)}
    {given : List (Answered I)} (hr : r.Fares fine wants P reads given)
    (h : ∀ reads given b, P reads given b → R reads given b) : r.Fares fine wants R reads given := by
  induction r generalizing reads given with
  | done b => exact h reads given b hr
  | ask q next ih => exact fun a ha => ih a (hr a ha)
  | await k s next ih => exact ⟨hr.1, fun x hx => ih _ (hr.2 x hx)⟩
  | peek k s next ih => exact fun a => ih a (hr a)
  | pause next ih => exact ih hr
  | stall => trivial

theorem Fares.bind {r : Routine I α β} {f : β → Routine I α γ} {reads : List (Read α)} {given : List (Answered I)}
    (hr : r.Fares fine wants P reads given) (hf : ∀ reads given b, P reads given b → (f b).Fares fine wants Q reads given) :
    (r.bind f).Fares fine wants Q reads given := by
  induction r generalizing reads given with
  | done b => exact hf reads given b hr
  | ask q next ih => exact fun a ha => ih a (hr a ha)
  | await k s next ih => exact ⟨hr.1, fun x hx => ih _ (hr.2 x hx)⟩
  | peek k s next ih => exact fun a => ih a (hr a)
  | pause next ih => exact ih hr
  | stall => trivial

/-- For a list, each element has its own part of the answers, and they come in its order. -/
theorem Fares.forEach {f : γ → Routine I α β} {G : γ → List (Answered I) → β → Prop}
    (hf : ∀ c reads given,
      (f c).Fares fine wants (fun reads' given' b => reads' = reads ∧ ∃ own, given' = given ++ own ∧ G c own b) reads given)
    (cs : List γ) (reads : List (Read α)) (given : List (Answered I)) :
    (Routine.forEach f cs).Fares fine wants (fun reads' given' bs => reads' = reads ∧
      ∃ parts, given' = given ++ parts.flatMap Prod.fst ∧ bs = parts.map Prod.snd ∧
        List.Forall₂ (fun c x => G c x.1 x.2) cs parts) reads given := by
  induction cs generalizing given with
  | nil => exact ⟨rfl, [], by simp, rfl, .nil⟩
  | cons c rest ih =>
    refine (hf c reads given).bind ?_
    rintro _ _ b ⟨rfl, own, rfl, hb⟩
    refine (ih (given ++ own)).bind ?_
    rintro _ _ _ ⟨rfl, parts, rfl, rfl, hparts⟩
    exact ⟨rfl, (own, b) :: parts, by simp, rfl, .cons hb hparts⟩

/-- With a bound the same comes out, if anything does: then the bound leaves room for one. -/
theorem Fares.buffered (limit : ℕ) {f : γ → Routine I α β} {G : γ → List (Answered I) → β → Prop}
    (hf : ∀ c reads given, (f c).Fares fine wants
      (fun reads' given' b => reads' = reads ∧ ∃ own, given' = given ++ own ∧ G c own b) reads given)
    (cs : List γ) (reads : List (Read α)) (given : List (Answered I)) :
    (Routine.buffered limit f cs).Fares fine wants (fun reads' given' bs => 0 < limit ∧ reads' = reads ∧
      ∃ parts, given' = given ++ parts.flatMap Prod.fst ∧ bs = parts.map Prod.snd ∧
        List.Forall₂ (fun c x => G c x.1 x.2) cs parts) reads given := by
  unfold Routine.buffered
  split_ifs with hlimit
  · trivial
  · exact (Fares.forEach hf cs reads given).mono fun _ _ _ h => ⟨Nat.pos_of_ne_zero hlimit, h⟩

end Routine

/-- The same of a computation, wherever it stands: if it waits for another one, then for one that is known. -/
def Position.Fares [Staged α] (known : Computation → Prop) (fine : (q : I.Query) → I.Answer q → Prop)
    (wants : Stage → Prop) (Q : List (Read α) → List (Answered I) → Made α → Prop) (reads : List (Read α))
    (given : List (Answered I)) : Position I α → Prop
  | .active r => r.Fares fine wants Q reads given
  | .joined other next => ∃ m, m.id = other ∧ known m ∧ wants m.stage ∧
      ∀ x : Artifact α, x.stage = m.stage → (next (.ok x)).Fares fine wants Q (reads ++ [.received (.ok x)]) given
  | .paused _ r => r.Fares fine wants Q reads given
  | .asleep _ r => r.Fares fine wants Q reads given

theorem Position.Fares.mono [Staged α] {known known' : Computation → Prop} {fine : (q : I.Query) → I.Answer q → Prop}
    {wants : Stage → Prop} {Q : List (Read α) → List (Answered I) → Made α → Prop} {reads : List (Read α)}
    {given : List (Answered I)} {pos : Position I α} (h : pos.Fares known fine wants Q reads given)
    (hknown : ∀ m, known m → known' m) : pos.Fares known' fine wants Q reads given := by
  cases pos with
  | joined other next =>
    obtain ⟨m, hid, hm, hnext⟩ := h
    exact ⟨m, hid, hknown m hm, hnext⟩
  | active r => exact h
  | paused round r => exact h
  | asleep due r => exact h

namespace Session

variable [Staged α]

/-! ### Sessions in which all goes well -/

/-- A computation runs, or it has ended. -/
def Known (H : List (Event α)) (s : Session I α) (m : Computation) : Prop :=
  m ∈ s.usage.running ∨ ∃ r, .ended m r ∈ H

/-- A computation ends well, with a value that fits to what it has read and was answered. -/
def EndsWell (Q : Key → Stage → List (Read α) → List (Answered I) → α → Prop) (m : Computation) (reads : List (Read α))
    (given : List (Answered I)) (made : Made α) : Prop :=
  ∃ x, made = .ok x ∧ Q m.key m.stage reads given x.1

variable {fine : (q : I.Query) → I.Answer q → Prop} {Q : Key → Stage → List (Read α) → List (Answered I) → α → Prop}

/-- What is known of a session in which all goes well, where `H` is its story and `given` are the answers to each
computation. -/
structure Sustained (fine : (q : I.Query) → I.Answer q → Prop)
    (Q : Key → Stage → List (Read α) → List (Answered I) → α → Prop) (H : List (Event α)) (given : ℕ → List (Answered I))
    (s : Session I α) : Prop where
  tracked : Tracked H s
  fresh : ∀ id, s.cache.nextComputation ≤ id → reads H id = [] ∧ given id = []
  flights : ∀ f ∈ s.flights, f.position.Fares (Known H s) fine (·.rank < f.computation.stage.rank)
    (EndsWell Q f.computation) (reads H f.computation.id) (given f.computation.id)
  ended : ∀ m r, .ended m r ∈ H → ∃ x : Artifact α, r = .ok x ∧ Q m.key m.stage (reads H m.id) (given m.id) x.value

omit [Staged α] in
theorem reads_map_read (i id : ℕ) (rs : List (Read α)) :
    reads (rs.map (Event.read i)) id = if i = id then rs else [] := by
  induction rs with
  | nil => simp
  | cons r rest ih =>
    rw [List.map_cons, ← List.singleton_append, reads_append, ih, reads_read]
    split_ifs <;> rfl

namespace Sustained

variable {call : Session I α → Key → Stage → Ticket α × Session I α} {task : Key → Stage → Routine I α (Made α)}
  {H H' : List (Event α)} {given : ℕ → List (Answered I)} {s s' : Session I α}

theorem start (lifetime capacity : ℕ) : Sustained fine Q [] (fun _ => []) (.start (.empty lifetime capacity)) where
  tracked := .start lifetime capacity
  fresh := fun _ _ => ⟨rfl, rfl⟩
  flights := fun _ h => nomatch h
  ended := fun _ _ h => nomatch h

/-- Nothing was read and nothing has ended; perhaps a computation was started. -/
theorem frame (htask : ∀ m : Computation, (task m.key m.stage).Fares fine (·.rank < m.stage.rank) (EndsWell Q m) [] [])
    (hs : Sustained fine Q H given s) (ht : Tracked H' s')
    (hnext : s.cache.nextComputation ≤ s'.cache.nextComputation)
    (hflights : ∀ f ∈ s'.flights, f ∈ s.flights ∨
      f.computation.id = s.cache.nextComputation ∧ f.position = .active (task f.computation.key f.computation.stage))
    (hrunning : ∀ m ∈ s.usage.running, m ∈ s'.usage.running) (hreads : ∀ id, reads H' id = reads H id)
    (hended : ∀ m r, .ended m r ∈ H' ↔ .ended m r ∈ H) : Sustained fine Q H' given s' := by
  have hknown : ∀ m, Known H s m → Known H' s' m := fun m hm =>
    hm.imp (hrunning m) (Exists.imp fun r => (hended m r).mpr)
  refine ⟨ht, fun id hid => ?fresh, fun f hf => ?flights, fun m r hm => ?ended⟩
  case fresh =>
    rw [hreads]
    exact hs.fresh id (hnext.trans hid)
  case flights =>
    rw [hreads]
    rcases hflights f hf with hold | ⟨hid, hpos⟩
    · exact (hs.flights f hold).mono hknown
    · obtain ⟨hnothing, hnone⟩ := hs.fresh _ hid.ge
      rw [hnothing, hnone, hpos]
      exact htask f.computation
  case ended =>
    rw [hreads]
    exact hs.ended m r ((hended m r).mp hm)

/-- A computation reads something, or is answered something, and goes on. -/
theorem place (hs : Sustained fine Q H given s) {f : Flight I α} (hf : f ∈ s.flights) {pos : Position I α}
    (rs : List (Read α)) (own : List (Answered I))
    (ht : Tracked (H ++ rs.map (.read f.computation.id)) (s.place f.computation.id pos))
    (hpos : pos.Fares (Known H s) fine (·.rank < f.computation.stage.rank) (EndsWell Q f.computation)
      (reads H f.computation.id ++ rs) (given f.computation.id ++ own)) :
    Sustained fine Q (H ++ rs.map (.read f.computation.id))
      (fun id => given id ++ if f.computation.id = id then own else []) (s.place f.computation.id pos) := by
  have hknown : ∀ m, Known H s m → Known (H ++ rs.map (.read f.computation.id)) (s.place f.computation.id pos) m := by
    intro m hm
    rw [Known, usage_place]
    exact hm.imp_right (Exists.imp fun r hr => List.mem_append_left _ hr)
  have hother : ∀ id, id ≠ f.computation.id → reads (H ++ rs.map (.read f.computation.id)) id = reads H id ∧
      (given id ++ if f.computation.id = id then own else []) = given id := by
    intro id hne
    rw [reads_append, reads_map_read, if_neg hne.symm, if_neg hne.symm, List.append_nil, List.append_nil]
    exact ⟨rfl, rfl⟩
  refine ⟨ht, fun id hid => ?fresh, fun g hg => ?flights, fun m r hm => ?ended⟩
  case fresh =>
    have hlt : f.computation.id < s.cache.nextComputation := hs.tracked.valid.started _ (mem_running hf)
    obtain ⟨hreads, hgiven⟩ := hother id (hlt.trans_le hid).ne'
    rw [hreads, hgiven]
    exact hs.fresh id hid
  case flights =>
    rcases flights_place_cases hs.tracked.valid.ids hf hg with rfl | ⟨hold, hne⟩
    · rw [reads_append, reads_map_read, if_pos rfl, if_pos rfl]
      exact hpos.mono hknown
    · obtain ⟨hreads, hgiven⟩ := hother g.computation.id hne
      rw [hreads, hgiven]
      exact (hs.flights g hold).mono hknown
  case ended =>
    have hm : .ended m r ∈ H := by simpa using hm
    obtain ⟨hreads, hgiven⟩ := hother m.id ((hs.tracked.ended m r hm).2.2 f hf).symm
    rw [hreads, hgiven]
    exact hs.ended m r hm

/-- A computation goes on without reading anything or being answered. -/
theorem goesOn (hs : Sustained fine Q H given s) {f : Flight I α} (hf : f ∈ s.flights) (pos : Position I α)
    (ht : Tracked H (s.place f.computation.id pos))
    (hpos : pos.Fares (Known H s) fine (·.rank < f.computation.stage.rank) (EndsWell Q f.computation)
      (reads H f.computation.id) (given f.computation.id)) :
    Sustained fine Q H given (s.place f.computation.id pos) := by
  simpa using hs.place hf [] [] (by simpa using ht) (by simpa using hpos)

/-- A computation ends. -/
theorem land (hs : Sustained fine Q H given s) {f : Flight I α} (hf : f ∈ s.flights) {r : Made α}
    (ht : Tracked (H ++ [.ended f.computation (s.cache.complete s.now f.computation r).1]) (s.land f.computation r))
    (hnext : s.cache.nextComputation ≤ (s.land f.computation r).cache.nextComputation)
    (hr : EndsWell Q f.computation (reads H f.computation.id) (given f.computation.id) r) :
    Sustained fine Q (H ++ [.ended f.computation (s.cache.complete s.now f.computation r).1]) given
      (s.land f.computation r) := by
  have hreads : ∀ id, reads (H ++ [.ended f.computation (s.cache.complete s.now f.computation r).1]) id = reads H id :=
    fun id => by rw [reads_append, reads_ended, List.append_nil]
  refine ⟨ht, fun id hid => ?fresh, fun g hg => ?flights, fun m r' hm => ?ended⟩
  case fresh =>
    rw [hreads]
    exact hs.fresh id (hnext.trans hid)
  case flights =>
    rw [hreads]
    refine (hs.flights g (List.mem_of_mem_filter hg)).mono fun m hm => ?_
    rcases hm with hm | ⟨r', hm⟩
    · -- the computation that ends is known by its end
      obtain ⟨g', hg', rfl⟩ := List.mem_map.mp hm
      by_cases hid : g'.computation.id = f.computation.id
      · have hsame : g'.computation = f.computation :=
          List.inj_on_of_nodup_map hs.tracked.valid.ids (mem_running hg') (mem_running hf) hid
        exact .inr ⟨_, List.mem_append_right _ (List.mem_singleton.mpr (by rw [hsame]))⟩
      · exact .inl (mem_running (List.mem_filter.mpr ⟨hg', bne_iff_ne.mpr hid⟩))
    · exact .inr ⟨r', List.mem_append_left _ hm⟩
  case ended =>
    rw [hreads]
    rcases List.mem_append.mp hm with hm | hm
    · exact hs.ended m r' hm
    · obtain ⟨rfl, rfl⟩ := Event.ended.inj (List.mem_singleton.mp hm)
      obtain ⟨v, rfl, hv⟩ := hr
      exact ⟨_, rfl, hv⟩

variable (hcall : Lawful call) (hwork : ∀ s k st, call s k st = s.enter k st (task k st))
  (htask : ∀ m : Computation, (task m.key m.stage).Fares fine (·.rank < m.stage.rank) (EndsWell Q m) [] [])

include hcall hwork htask

/-- Someone asks for a stage. -/
theorem called (hs : Sustained fine Q H given s) (k : Key) (st : Stage) : Sustained fine Q H given (call s k st).2 := by
  have hcalled := hcall s k st hs.tracked.valid
  have hnext : s.cache.nextComputation ≤ (call s k st).2.cache.nextComputation := by
    rw [hwork, show (s.enter k st (task k st)).2.cache = _ from congrArg Usage.cache (usage_enter s k st _)]
    exact (Usage.advances_step s.usage _).computations
  refine hs.frame htask (hs.tracked.called hcalled) hnext (fun f hf => ?_)
    (fun m hm => hs.tracked.running_called hcall hm k st) (fun _ => rfl) fun _ _ => .rfl
  rw [hwork] at hf
  refine (mem_flights_enter.mp hf).imp_right fun ⟨hstart, hpos⟩ => ?_
  obtain ⟨hid, hkey, hstage⟩ := eq_of_start hstart
  rw [hkey, hstage]
  exact ⟨hid, hpos⟩

omit htask hcall in
/-- Who is served at once is served well. -/
theorem served (hs : Sustained fine Q H given s) {k : Key} {st : Stage} {r : Except Failure (Artifact α)}
    (hr : (call s k st).1 = .settled r) : ∃ x : Artifact α, r = .ok x ∧ x.stage = st ∧
      s.cache.visible? s.now k st = some x := by
  rw [hwork] at hr
  rcases enter_cases s k st (task k st) with ⟨x, hx, e⟩ | ⟨id, -, -, e⟩ | ⟨m, -, -, -, -, e⟩ <;> rw [e] at hr
  · obtain ⟨y, hy, rfl⟩ := Cache.slot?_of_visible? hx
    have hstage := hs.tracked.valid.staged k st y hy
    rw [Artifact.ofStage_eq_ok hstage] at hr
    exact ⟨y.artifact, (Ticket.settled.inj hr).symm, hstage, hx⟩
  · cases hr
  · cases hr

section Advances

variable {f : Flight I α} {answer : (q : I.Query) → Response (I.Answer q)}

omit hwork htask in
theorem tracked_advance (hs : Sustained fine Q H given s) (hf : f ∈ s.flights)
    (answer : (q : I.Query) → Response (I.Answer q)) :
    Tracked (H ++ (s.advance call f answer).1) (s.advance call f answer).2 :=
  hs.tracked.progress hcall hf (progress_advance call s f answer)

omit hwork htask in
/-- A question gets an answer, at once or later, or the computation stays where it is. -/
theorem advance_ask (hs : Sustained fine Q H given s) (hf : f ∈ s.flights)
    (hanswer : ∀ q a, (answer q).value? = some a → fine q a) {q : I.Query} {next : I.Answer q → Routine I α (Made α)}
    (hpos : f.position = .active (.ask q next)) :
    Sustained fine Q (H ++ (s.advance call f answer).1)
      (fun id => given id ++ if f.computation.id = id then f.answered answer else []) (s.advance call f answer).2 := by
  have hfares := hs.flights f hf
  have ht := hs.tracked_advance hcall hf answer
  have hgiven := hanswer q
  rw [hpos] at hfares
  rw [Session.advance] at ht ⊢
  simp only [Flight.answered, hpos] at ht ⊢
  rcases ha : answer q with a | ⟨wait, a⟩ | _ <;> rw [ha] at ht hgiven
  · refine hs.place hf [] [⟨q, a⟩] ht ?_
    rw [List.append_nil]
    exact hfares a (hgiven a rfl)
  · refine hs.place hf [] [⟨q, a⟩] ht ?_
    rw [List.append_nil]
    exact hfares a (hgiven a rfl)
  · simpa [Response.value?] using hs

/-- A stage is waited for: it is served at once, or another computation is joined or started. -/
theorem advance_await (hs : Sustained fine Q H given s) (hf : f ∈ s.flights) {k : Key} {st : Stage}
    {next : Except Failure (Artifact α) → Routine I α (Made α)} (hpos : f.position = .active (.await k st next)) :
    Sustained fine Q (H ++ (s.advance call f answer).1)
      (fun id => given id ++ if f.computation.id = id then f.answered answer else []) (s.advance call f answer).2 := by
  have hfares := hs.flights f hf
  have ht := hs.tracked_advance hcall hf answer
  have hkept := hs.called hcall hwork htask k st
  have hcalled := hcall s k st hs.tracked.valid
  rw [hpos] at hfares
  obtain ⟨hlt, hfares⟩ := hfares
  rw [Session.advance] at ht ⊢
  simp only [Flight.answered, hpos] at ht ⊢
  rcases hc : call s k st with ⟨r | other, s₁⟩
  · obtain ⟨x, rfl, hx, -⟩ := hs.served hwork (congrArg Prod.fst hc)
    rw [hc] at ht hkept hcalled
    refine hkept.place (hcalled.settled.2 ▸ hf) [.received (.ok x)] [] ht ?_
    rw [List.append_nil]
    exact hfares x hx
  · obtain ⟨m, hid, -, hm, hruns, -⟩ := exists_of_waiting hcall hs.tracked (congrArg Prod.fst hc)
    rw [hc] at ht hkept hcalled hruns
    suffices hwaits : (Position.joined other fun r => next (r.bind (Artifact.ofStage st))).Fares (Known H s₁) fine
        (·.rank < f.computation.stage.rank) (EndsWell Q f.computation) (reads H f.computation.id)
        (given f.computation.id) by
      simpa using hkept.goesOn (hcalled.flights f hf) _ (by simpa using ht) hwaits
    refine ⟨m, hid, .inl hruns, hm ▸ hlt, fun x hx => ?_⟩
    have hsame : Except.bind (.ok x) (Artifact.ofStage st) = .ok x := Artifact.ofStage_eq_ok (hx.trans hm)
    beta_reduce
    rw [hsame]
    exact hfares x (hx.trans hm)

omit hwork in
theorem advance_peek (hs : Sustained fine Q H given s) (hf : f ∈ s.flights) {k : Key} {st : Stage}
    {next : Option (Artifact α) → Routine I α (Made α)} (hpos : f.position = .active (.peek k st next)) :
    Sustained fine Q (H ++ (s.advance call f answer).1)
      (fun id => given id ++ if f.computation.id = id then f.answered answer else []) (s.advance call f answer).2 := by
  have hfares := hs.flights f hf
  have ht := hs.tracked_advance hcall hf answer
  have hkept : Sustained fine Q H given (s.peek k st).2 := hs.frame htask
    (hs.tracked.looked (.look .refl k st)) (Cache.SameRest.expire s.cache s.now k st).nextComputation.ge
    (fun _ hg => .inl hg) (fun _ hm => hm) (fun _ => rfl) fun _ _ => .rfl
  rw [hpos] at hfares
  rw [Session.advance] at ht ⊢
  simp only [Flight.answered, hpos] at ht ⊢
  refine hkept.place hf [.looked k st (s.peek k st).1] [] ht ?_
  rw [List.append_nil]
  exact hfares _

omit hwork htask in
/-- A computation that waits for another one goes on once that has ended, and that has ended well. -/
theorem advance_joined (hs : Sustained fine Q H given s) (hf : f ∈ s.flights) {other : ℕ}
    {next : Except Failure (Artifact α) → Routine I α (Made α)} (hpos : f.position = .joined other next) :
    Sustained fine Q (H ++ (s.advance call f answer).1)
      (fun id => given id ++ if f.computation.id = id then f.answered answer else []) (s.advance call f answer).2 := by
  have hfares := hs.flights f hf
  have ht := hs.tracked_advance hcall hf answer
  rw [hpos] at hfares
  obtain ⟨m, rfl, hm, -, hnext⟩ := hfares
  rw [Session.advance] at ht ⊢
  simp only [Flight.answered, hpos] at ht ⊢
  rcases hr : s.result? m.id with _ | r
  · simpa [hr] using hs
  · have hended := (hs.tracked.result?_iff hm).mp hr
    obtain ⟨x, rfl, -⟩ := hs.ended m r hended
    simp only [hr] at ht ⊢
    refine hs.place hf [.received (.ok x)] [] ht ?_
    rw [List.append_nil]
    exact hnext x (hs.tracked.staged m x hended)

/-- A computation is taken further. -/
theorem advance (hs : Sustained fine Q H given s) (hf : f ∈ s.flights)
    (hanswer : ∀ q a, (answer q).value? = some a → fine q a) :
    Sustained fine Q (H ++ (s.advance call f answer).1)
      (fun id => given id ++ if f.computation.id = id then f.answered answer else []) (s.advance call f answer).2 := by
  have hfares := hs.flights f hf
  have ht := hs.tracked_advance hcall hf answer
  cases hpos : f.position with
  | active r =>
    cases r with
    | done r =>
      have hnext : s.cache.nextComputation ≤ (s.advance call f answer).2.cache.nextComputation := by
        obtain ⟨acts, hacts⟩ := hs.tracked.exists_run_progress hcall hf (progress_advance call s f answer)
        rw [show (s.advance call f answer).2.cache = _ from congrArg Usage.cache hacts]
        exact (Usage.advances_run acts s.usage).computations
      rw [hpos] at hfares
      rw [Session.advance] at ht hnext ⊢
      simp only [Flight.answered, hpos] at ht hnext ⊢
      simpa using hs.land hf ht hnext hfares
    | ask q next => exact hs.advance_ask hcall hf hanswer hpos
    | await k st next => exact hs.advance_await hcall hwork htask hf hpos
    | peek k st next => exact hs.advance_peek hcall htask hf hpos
    | pause next =>
      rw [hpos] at hfares
      rw [Session.advance] at ht ⊢
      simp only [Flight.answered, hpos] at ht ⊢
      simpa using hs.goesOn hf (.paused s.round next) (by simpa using ht) hfares
    | stall =>
      rw [Session.advance]
      simpa [Flight.answered, hpos] using hs
  | joined other next => exact hs.advance_joined hcall hf hpos
  | paused round r =>
    rw [hpos] at hfares
    rw [Session.advance] at ht ⊢
    simp only [Flight.answered, hpos] at ht ⊢
    simpa using hs.goesOn hf (.active r) (by simpa using ht) hfares
  | asleep due r =>
    rw [hpos] at hfares
    rw [Session.advance] at ht ⊢
    simp only [Flight.answered, hpos] at ht ⊢
    simpa using hs.goesOn hf (.active r) (by simpa using ht) hfares

end Advances

theorem moved (hs : Sustained fine Q H given s) {a : Move I α} (ha : a.Serves fine) :
    Sustained fine Q (H ++ (s.moved call a).1) (fun id => given id ++ s.answered id a) (s.moved call a).2 := by
  have ht := hs.tracked.moved hcall a
  have hnext : s.cache.nextComputation ≤ (s.moved call a).2.cache.nextComputation := by
    obtain ⟨acts, hacts⟩ := hs.tracked.exists_run_moved hcall a
    rw [show (s.moved call a).2.cache = _ from congrArg Usage.cache hacts]
    exact (Usage.advances_run acts s.usage).computations
  -- nobody is started and nothing is read when the cache is used otherwise
  have huse : (s.moved call a).2.flights = s.flights → (∀ id, reads (s.moved call a).1 id = []) →
      (∀ m r, .ended m r ∉ (s.moved call a).1) →
      Sustained fine Q (H ++ (s.moved call a).1) given (s.moved call a).2 := fun hf hreads hended =>
    hs.frame htask ht hnext (fun f h => .inl (hf ▸ h)) (fun m hm => by rwa [usage, hf])
      (fun id => by rw [reads_append, hreads, List.append_nil]) fun m r => by simp [hended]
  cases a with
  | ask k st => simpa [Session.moved, answered] using hs.called hcall hwork htask k st
  | go id answer =>
    simp only [Session.moved, answered]
    rcases hf : s.flight? id with _ | f
    · simpa [hf] using hs
    · obtain rfl : f.computation.id = id := by simpa using List.find?_some hf
      simpa [hf] using hs.advance hcall hwork htask (List.mem_of_find?_eq_some hf) ha
  | insert k v => simpa [answered] using huse rfl (fun _ => rfl) (by simp [Session.moved])
  | _ => simpa [answered] using huse rfl (fun _ => rfl) fun _ _ => List.not_mem_nil

theorem play (moves : List (Move I α)) (hmoves : ∀ a ∈ moves, a.Serves fine) (hs : Sustained fine Q H given s) :
    Sustained fine Q (H ++ (Session.play call moves s).1) (fun id => given id ++ answers call id moves s)
      (Session.play call moves s).2 := by
  induction moves generalizing H given s with
  | nil => simpa [Session.play, answers] using hs
  | cons a rest ih =>
    rw [List.forall_mem_cons] at hmoves
    simpa [Session.play, answers] using ih hmoves.2 (hs.moved hcall hwork htask hmoves.1)

end Sustained

end Session

end ContractMigration
