import ContractMigration.Proofs.Cache.Replacement
import ContractMigration.Proofs.Session.Tickets

/-! What computations end with in a session, and what they say that this was made from. A session delivers just what is
delivered by what is done with its cache. -/

namespace ContractMigration

open Usage

variable {I : Interface} {α : Type}

/-- What a computation ends with if it is taken further, where `c` is the cache. -/
def Flight.delivers (f : Flight I α) (c : Cache α) : List (Delivery α) :=
  match f.position with
  | .active (.done (.ok (v, sources))) => [⟨f.computation, ⟨c.nextArtifact, v⟩, sources⟩]
  | _ => []

theorem Flight.position_of_delivers {f : Flight I α} {c : Cache α} {d : Delivery α} (hd : d ∈ f.delivers c) :
    d.computation = f.computation ∧ ∃ v, f.position = .active (.done (.ok (v, d.sources))) := by
  rw [delivers] at hd
  split at hd
  · next v sources hpos =>
    obtain rfl := List.mem_singleton.mp hd
    exact ⟨rfl, v, hpos⟩
  · cases hd

namespace Session

/-- What is delivered in a move. -/
def delivered (s : Session I α) : Move I α → List (Delivery α)
  | .go id _ => match s.flight? id with
    | some f => f.delivers s.cache
    | none => []
  | _ => []

theorem exists_of_mem_delivered {s : Session I α} {a : Move I α} {d : Delivery α} (hd : d ∈ s.delivered a) :
    ∃ f ∈ s.flights, d ∈ f.delivers s.cache := by
  cases a with
  | go id answer =>
    rw [delivered] at hd
    rcases hf : s.flight? id with _ | f <;> rw [hf] at hd
    · cases hd
    · exact ⟨f, List.mem_of_find?_eq_some hf, hd⟩
  | _ => cases hd

variable [Staged α] (call : Session I α → Key → Stage → Ticket α × Session I α)

/-- What is delivered in the course of a session, in order. -/
def deliveries : List (Move I α) → Session I α → List (Delivery α)
  | [], _ => []
  | a :: rest, s => s.delivered a ++ deliveries rest (s.moved call a).2

theorem deliveries_append (p q : List (Move I α)) (s : Session I α) :
    deliveries call (p ++ q) s = deliveries call p s ++ deliveries call q (play call p s).2 := by
  induction p generalizing s with
  | nil => rfl
  | cons a rest ih => rw [List.cons_append, deliveries, ih, deliveries, List.append_assoc]; rfl

/-- What has ended well is delivered. -/
theorem Progress.exists_delivers {s s' : Session I α} {f : Flight I α} {E : List (Event α)} {qs : List I.Query}
    (h : Progress call s f E qs s') {m : Computation} {x : Artifact α} (hended : .ended m (.ok x) ∈ E) :
    ∃ sources, ⟨m, x, sources⟩ ∈ f.delivers s.cache := by
  cases h with
  | ends r hpos =>
    obtain ⟨rfl, hx⟩ := Event.ended.inj (List.mem_singleton.mp hended)
    rw [Flight.delivers, hpos]
    cases r with
    | error e => cases hx
    | ok y =>
      obtain rfl := Except.ok.inj hx
      exact ⟨y.2, List.mem_singleton_self _⟩
  | stays => cases hended
  | goesOn p qs h => cases hended
  | waits k st next hpos other s' hc => cases hended
  | isServed k st next hpos r s' hc => cases List.mem_singleton.mp hended
  | looks k st next hpos => cases List.mem_singleton.mp hended
  | isTold other next hpos r hr => cases List.mem_singleton.mp hended

theorem exists_delivered {s : Session I α} {a : Move I α} {m : Computation} {x : Artifact α}
    (hended : .ended m (.ok x) ∈ (s.moved call a).1) : ∃ sources, ⟨m, x, sources⟩ ∈ s.delivered a := by
  cases a with
  | go id answer =>
    rw [moved] at hended
    rw [delivered]
    rcases hf : s.flight? id with _ | f <;> rw [hf] at hended
    · cases hended
    · exact (progress_advance call s f answer).exists_delivers call hended
  | insert k v => cases List.mem_singleton.mp hended
  | _ => cases hended

theorem exists_deliveries {s : Session I α} {moves : List (Move I α)} {m : Computation} {x : Artifact α}
    (hended : .ended m (.ok x) ∈ (play call moves s).1) : ∃ sources, ⟨m, x, sources⟩ ∈ deliveries call moves s := by
  induction moves generalizing s with
  | nil => cases hended
  | cons a rest ih =>
    rcases List.mem_append.mp hended with hended | hended
    · exact (exists_delivered call hended).imp fun sources hd => List.mem_append_left _ hd
    · exact (ih hended).imp fun sources hd => List.mem_append_right _ hd

/-- What a computation delivers next is made from earlier stages. -/
def Graded (s : Session I α) : Prop :=
  ∀ f ∈ s.flights, ∀ d ∈ f.delivers s.cache, ∀ a ∈ d.sources, a.stage.rank < f.computation.stage.rank

/-- What happened comes to something that was done with the cache, and this was delivered. -/
def Passes (s : Session I α) (ds : List (Delivery α)) (s' : Session I α) : Prop :=
  ∃ acts, (∀ a ∈ acts, a.Derives) ∧ s'.usage = run acts s.usage ∧ Usage.deliveries (story acts s.usage) = ds

namespace Passes

variable {s s' s'' : Session I α} {ds ds' : List (Delivery α)}

/-- Where no computation ends, nothing is delivered. -/
theorem quiet {acts : List (Action α)} (hacts : ∀ a ∈ acts, a.isFinish = false) (hrun : s'.usage = run acts s.usage) :
    Passes s [] s' :=
  ⟨acts, fun a ha => derives_of_isFinish_eq_false (hacts a ha), hrun, deliveries_story_eq_nil hacts _⟩

theorem of_usage (h : s'.usage = s.usage) : Passes s [] s' := ⟨[], nofun, h, rfl⟩

theorem single {a : Action α} (ha : a.isFinish = false) (h : s'.usage = s.usage.step a) : Passes s [] s' :=
  quiet (List.forall_mem_singleton.mpr ha) h

theorem trans (h : Passes s ds s') (h' : Passes s' ds' s'') : Passes s (ds ++ ds') s'' := by
  obtain ⟨acts, hacts, hrun, rfl⟩ := h
  obtain ⟨acts', hacts', hrun', rfl⟩ := h'
  refine ⟨acts ++ acts', List.forall_mem_append.mpr ⟨hacts, hacts'⟩, by rw [run_append, ← hrun, hrun'], ?_⟩
  rw [story_append, ← hrun, Usage.deliveries, List.filterMap_append]
  rfl

end Passes

variable {call} {H : List (Event α)} {s s' : Session I α}

theorem Called.passes {k : Key} {st : Stage} {ts : Ticket α × Session I α} (h : Called s k st ts) : Passes s [] ts.2 := by
  obtain ⟨acts, hacts, hrun⟩ := h.exists_run
  exact .quiet hacts hrun

/-- The end of a computation. -/
theorem passes_land (hs : Tracked H s) (hgraded : s.Graded) {f : Flight I α} (hf : f ∈ s.flights) {r : Made α}
    (hpos : f.position = .active (.done r)) : Passes s (f.delivers s.cache) (s.land f.computation r) := by
  obtain ⟨reads, hmeets⟩ := hs.flights f hf
  rw [hpos] at hmeets
  have hr : OfStage f.computation.stage reads r := hmeets
  obtain ⟨y, rfl⟩ := hr.exists_yield
  have hdelivers : Usage.deliveries (s.usage.events (.finish f.computation y)) = f.delivers s.cache := by
    rw [events, if_pos (mem_running hf), Flight.delivers, hpos]
    cases y <;> rfl
  refine ⟨[.finish f.computation y], List.forall_mem_singleton.mpr ?_, usage_land hs.valid.ids hf y, ?_⟩
  · cases y with
    | value v sources staged =>
      have hdelivery : (⟨f.computation, ⟨s.cache.nextArtifact, v⟩, sources⟩ : Delivery α) ∈ f.delivers s.cache := by
        rw [Flight.delivers, hpos]
        exact List.mem_singleton_self _
      exact hgraded f hf _ hdelivery
    | failure e => exact List.forall_mem_nil _
  · rw [story_cons, story_nil, List.append_nil, hdelivers]

variable (hcall : Lawful call)

include hcall

theorem passes_advance (hs : Tracked H s) (hgraded : s.Graded) {f : Flight I α} (hf : f ∈ s.flights)
    (answer : (q : I.Query) → Response (I.Answer q)) :
    Passes s (f.delivers s.cache) (s.advance call f answer).2 := by
  have hplace : ∀ pos : Position I α, Passes s [] (s.place f.computation.id pos) := fun pos =>
    .of_usage (usage_place s _ pos)
  rw [advance]
  cases hpos : f.position with
  | active r =>
    cases r with
    | done r => exact passes_land hs hgraded hf hpos
    | ask q next =>
      rw [Flight.delivers, hpos]
      dsimp only
      split
      · exact hplace _
      · exact hplace _
      · exact .of_usage rfl
    | await k st next =>
      have hcalled := (hcall s k st hs.valid).passes
      rw [Flight.delivers, hpos]
      dsimp only
      rcases hc : call s k st with ⟨r | other, s'⟩ <;> rw [hc] at hcalled
      · exact hcalled.trans (.of_usage (usage_place s' _ _))
      · exact hcalled.trans (.of_usage (usage_place s' _ _))
    | peek k st next =>
      rw [Flight.delivers, hpos]
      exact .single (a := .peek k st) rfl (usage_place (s.peek k st).2 _ _)
    | pause next =>
      rw [Flight.delivers, hpos]
      exact hplace _
    | stall =>
      rw [Flight.delivers, hpos]
      exact .of_usage rfl
  | joined other next =>
    rw [Flight.delivers, hpos]
    dsimp only
    split
    · exact hplace _
    · exact .of_usage rfl
  | paused round r =>
    rw [Flight.delivers, hpos]
    exact hplace _
  | asleep due r =>
    rw [Flight.delivers, hpos]
    exact hplace _

theorem passes_moved (hs : Tracked H s) (hgraded : s.Graded) (a : Move I α) :
    Passes s (s.delivered a) (s.moved call a).2 := by
  cases a with
  | ask k st => exact (hcall s k st hs.valid).passes
  | go id answer =>
    rw [moved, delivered]
    rcases hf : s.flight? id with _ | f
    · exact .of_usage rfl
    · exact passes_advance hcall hs hgraded (List.mem_of_find?_eq_some hf) answer
  | insert k v => exact .single (a := .insert k v) rfl rfl
  | invalidate k st => exact .single (a := .invalidate k st) rfl rfl
  | clear => exact .single (a := .clear) rfl rfl
  | peek k st => exact .single (a := .peek k st) rfl rfl
  | contains k st => exact .single (a := .contains k st) rfl rfl
  | wait time => exact .single (a := .wait time) rfl rfl
  | attend callers rung round => exact .of_usage rfl

/-- What is delivered in a session is what is delivered by the use of its cache. -/
theorem passes_play (hs : Tracked H s) {moves : List (Move I α)}
    (hgraded : ∀ p, p <+: moves → (play call p s).2.Graded) :
    Passes s (deliveries call moves s) (play call moves s).2 := by
  induction moves generalizing H s with
  | nil => exact .of_usage rfl
  | cons a rest ih =>
    have hnow : s.Graded := hgraded [] List.nil_prefix
    have hlater := ih (hs.moved hcall a) fun p hp => hgraded (a :: p) (List.cons_prefix_cons.mpr ⟨rfl, hp⟩)
    exact (passes_moved hcall hs hnow a).trans hlater

end Session

end ContractMigration
