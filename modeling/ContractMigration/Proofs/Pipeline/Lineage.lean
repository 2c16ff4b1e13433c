import ContractMigration.Proofs.Cache.Coherence
import ContractMigration.Proofs.Pipeline.Tasks
import ContractMigration.Proofs.Session.Moves

/-! What is known of the artifacts in a session of a pipeline. What a stage holds beside the stage before it was inserted, or
made from just that. The transformed files look at a tree without telling it as a source, long before they are stored; but
an analysis that was in its slot then was made from that tree, and one that was not there never comes back to its slot. So
transformed files that are stored never mix what was made from different trees or analyses. -/

namespace ContractMigration

/-- The artifacts that a computation got to see by a read. -/
def Read.artifacts {α : Type} : Read α → List (Artifact α)
  | received (.ok a) => [a]
  | looked _ _ (some a) => [a]
  | _ => []

theorem Read.mem_artifacts_received {α : Type} {r : Except Failure (Artifact α)} {x : Artifact α} :
    x ∈ (received r).artifacts ↔ r = .ok x := by
  cases r <;> simp [artifacts, eq_comm]

theorem Read.mem_artifacts_looked {α : Type} {k : Key} {s : Stage} {a : Option (Artifact α)} {x : Artifact α} :
    x ∈ (looked k s a).artifacts ↔ a = some x := by
  cases a <;> simp [artifacts, eq_comm]

namespace Pipeline

open Session Usage

/-- An artifact of a stage of a repository was inserted, or a computation that read nothing but `y` ended with it. -/
def MadeFrom (H : List (Session.Event Product)) (k : Key) (s : Stage) (x y : Artifact Product) : Prop :=
  .inserted k x ∈ H ∨ ∃ m, .ended m (.ok x) ∈ H ∧ m.key = k ∧ m.stage = s ∧ reads H m.id = [.received (.ok y)]

/-- Transformed files of a repository were inserted, or made of one generation: their plan is from the very analysis that
was read, and that one is from the very tree that was found. -/
inductive Unmixed (H : List (Session.Event Product)) (k : Key) (x : Artifact Product) : Prop
  | inserted (told : .inserted k x ∈ H)
  | computed (m : Computation) (a p : Artifact Product) (t : Option (Artifact Product)) (told : .ended m (.ok x) ∈ H)
      (key : m.key = k) (stage : m.stage = .transform)
      (read : reads H m.id = [.received (.ok a), .received (.ok p), .looked k .tree t])
      (planned : MadeFrom H k .plan p a) (analysed : ∀ i, t = some i → MadeFrom H k .analysis a i)

/-- What is known of a session, where `h` is what was done with its cache and `H` is its story. -/
structure Sound (h : List (Usage.Event Product)) (H : List (Session.Event Product)) (s : Session Outside Product) :
    Prop where
  coherent : CoherentRun h s.usage
  numbered : Numbered h s.usage
  inserted : ∀ k x, .inserted k x ∈ h → .inserted k x ∈ H
  finished : ∀ m x sources, .finished m (.ok x) sources ∈ h →
    .ended m (.ok x) ∈ H ∧ DerivedBy m.key m.stage (reads H m.id) sources
  results : ∀ id x, (id, .ok x) ∈ s.results → Arisen h x
  read : ∀ id r, .read id r ∈ H → id < s.cache.nextComputation ∧ ∀ x ∈ r.artifacts, Arisen h x
  ended : ∀ m r, .ended m r ∈ H → m.id < s.cache.nextComputation ∧ ∀ f ∈ s.flights, f.computation.id ≠ m.id
  flights : ∀ f ∈ s.flights,
    f.position.Meets (Derives f.computation.key f.computation.stage) (reads H f.computation.id)
  tied : ∀ id k a r i, reads H id = [.received (.ok a), r, .looked k .tree (some i)] →
    ∀ y, s.cache.slot? k .analysis = some y → y.artifact = a → MadeFrom H k .analysis a i
  unmixed : ∀ k x, s.cache.slot? k .transform = some x → Unmixed H k x.artifact

/-! ### What is told stays true -/

/-- Nothing is read by computations that have ended. -/
def Quiet (H E : List (Session.Event Product)) : Prop := ∀ m r, .ended m r ∈ H → reads E m.id = []

section Quiet

variable {H E : List (Session.Event Product)} {k : Key} {s : Stage} {x y : Artifact Product}

theorem MadeFrom.mono (hq : Quiet H E) (h : MadeFrom H k s x y) : MadeFrom (H ++ E) k s x y := by
  rcases h with told | ⟨m, told, hk, hs, hr⟩
  · exact .inl (List.mem_append_left _ told)
  · refine .inr ⟨m, List.mem_append_left _ told, hk, hs, ?_⟩
    rw [reads_append, hq m _ told, List.append_nil, hr]

theorem Unmixed.mono (hq : Quiet H E) (h : Unmixed H k x) : Unmixed (H ++ E) k x := by
  cases h with
  | inserted told => exact .inserted (List.mem_append_left _ told)
  | computed m a p t told key stage read planned analysed =>
    refine .computed m a p t (List.mem_append_left _ told) key stage ?_ (planned.mono hq)
      fun i hi => (analysed i hi).mono hq
    rw [reads_append, hq m _ told, List.append_nil, read]

theorem quiet_of_no_read (hE : ∀ id r, .read id r ∉ E) : Quiet H E := fun m _ _ => reads_eq_nil (hE m.id)

end Quiet

namespace Sound

variable {h : List (Usage.Event Product)} {H : List (Session.Event Product)} {s : Session Outside Product}

theorem explained (hs : Sound h H s) : Explains h s.usage := hs.coherent.explained

theorem valid (hs : Sound h H s) : Valid s.usage := hs.coherent.explained.valid

theorem eq_of_isSame (hs : Sound h H s) {x y : Artifact Product} (hx : Arisen h x) (hy : Arisen h y)
    (hxy : x.isSame y) : x = y := by
  exact hx.eq hs.explained hy (Artifact.isSame_iff.mp hxy).2

theorem arisen_of_read (hs : Sound h H s) {id : ℕ} {r : Read Product} (hr : r ∈ reads H id) {x : Artifact Product}
    (hx : x ∈ r.artifacts) : Arisen h x := by
  obtain ⟨e, he, hsome⟩ := List.mem_filterMap.mp hr
  cases e with
  | read i r' =>
    by_cases hi : i = id
    · simp only [hi, ↓reduceIte, Option.some.injEq] at hsome
      subst hsome
      exact (hs.read i r' he).2 x hx
    · simp [hi] at hsome
  | _ => cases hsome

theorem arisen_of_received (hs : Sound h H s) {id : ℕ} {rs : List (Read Product)} (hrs : reads H id = rs)
    {x : Artifact Product} (hx : .received (.ok x) ∈ rs) : Arisen h x :=
  hs.arisen_of_read (hrs ▸ hx) (List.mem_singleton.mpr rfl)

theorem computation_eq (hs : Sound h H s) {f f' : Flight Outside Product} (hf : f ∈ s.flights) (hf' : f' ∈ s.flights)
    (hid : f.computation.id = f'.computation.id) : f.computation = f'.computation :=
  List.inj_on_of_nodup_map hs.valid.ids (mem_running hf) (mem_running hf') hid

/-- What a stage holds beside the stage it is made from was inserted, or made from just that. -/
theorem madeFrom_of_beside (hs : Sound h H s) {k : Key} {st t : Stage}
    (hst : st = .analysis ∧ t = .tree ∨ st = .plan ∧ t = .analysis) {x y : Stored Product}
    (hx : s.cache.slot? k st = some x) (hy : s.cache.slot? k t = some y) :
    MadeFrom H k st x.artifact y.artifact := by
  cases hs.explained.slots k st x hx with
  | inserted told => exact .inl (hs.inserted k _ told)
  | computed m sources told hk hm =>
    obtain ⟨hended, hder⟩ := hs.finished m _ sources told
    obtain ⟨z, hz, hreads, hsources⟩ : ∃ z : Artifact Product,
        z.stage = t ∧ reads H m.id = [.received (.ok z)] ∧ sources = [z] := by
      rw [hm] at hder
      rcases hst with ⟨rfl, rfl⟩ | ⟨rfl, rfl⟩
      · generalize reads H m.id = rs at hder ⊢
        cases hder with
        | analysis z hz => exact ⟨z, hz, rfl, rfl⟩
      · generalize reads H m.id = rs at hder ⊢
        cases hder with
        | plan z hz => exact ⟨z, hz, rfl, rfl⟩
    have hzk : Arisen h z := hs.arisen_of_received hreads (List.mem_singleton.mpr rfl)
    -- the source of what is stored is not beside another artifact
    rcases hs.coherent.beside k st x hx m sources told z (by simp [hsources]) with hno | ⟨y', hy', hsame⟩
    · rw [hz] at hno
      exact absurd (hy.symm.trans hno) nofun
    · rw [hz] at hy'
      obtain rfl := Option.some.inj (hy.symm.trans hy')
      obtain rfl := hs.eq_of_isSame (Arisen.of_slot hs.explained hy) hzk hsame
      exact .inr ⟨m, hended, hk, hm, hreads⟩

/-- What is tied to an analysis while it is in its slot is so after whatever is done with the cache. -/
theorem tied_step (hs : Sound h H s) {a : Action Product} {id : ℕ} {k : Key} {b i : Artifact Product} {r : Read Product}
    (hread : reads H id = [.received (.ok b), r, .looked k .tree (some i)]) {y : Stored Product}
    (hy : (s.usage.step a).cache.slot? k .analysis = some y) (hyb : y.artifact = b) : MadeFrom H k .analysis b i := by
  have hb : Arisen h b := hs.arisen_of_received hread (by simp)
  have hold : s.cache.slot? k .analysis = some y := slot?_of_step hs.valid.keys hy (hyb ▸ hb.lt hs.explained)
  exact hs.tied id k b r i hread y hold hyb

/-- If an analysis and a plan are current that were read before a look at the tree, the plan is from that analysis, and
that one is from the tree that was found. -/
theorem madeFrom_of_accepts (hs : Sound h H s) {m : Computation} {a p : Artifact Product}
    {t : Option (Artifact Product)}
    (hread : reads H m.id = [.received (.ok a), .received (.ok p), .looked m.key .tree t]) (ha : a.stage = .analysis)
    (hp : p.stage = .plan) (haccepts : s.cache.accepts m [a, p]) :
    MadeFrom H m.key .plan p a ∧ ∀ i, t = some i → MadeFrom H m.key .analysis a i := by
  simp only [Cache.accepts, Bool.and_eq_true] at haccepts
  have hcur := Cache.isCurrent_iff.mp haccepts.2
  obtain ⟨y, hy, hya⟩ := hcur a (by simp)
  obtain ⟨z, hz, hzp⟩ := hcur p (by simp)
  rw [ha] at hy
  rw [hp] at hz
  have hka : Arisen h a := hs.arisen_of_received hread (by simp)
  have hkp : Arisen h p := hs.arisen_of_received hread (by simp)
  obtain rfl := hs.eq_of_isSame (Arisen.of_slot hs.explained hy) hka hya
  obtain rfl := hs.eq_of_isSame (Arisen.of_slot hs.explained hz) hkp hzp
  refine ⟨hs.madeFrom_of_beside (.inr ⟨rfl, rfl⟩) hz hy, ?_⟩
  rintro i rfl
  exact hs.tied m.id m.key y.artifact _ i hread y hy rfl

/-- Transformed files that can be stored when their computation ends are of one generation. -/
theorem unmixed_of_accepts (hs : Sound h H s) {E : List (Session.Event Product)} (hquiet : Quiet H E) {m : Computation}
    {x : Artifact Product} {sources : List (Artifact Product)} (hstage : m.stage = .transform)
    (hder : DerivedBy m.key m.stage (reads H m.id) sources) (haccepts : s.cache.accepts m sources)
    (hended : .ended m (.ok x) ∈ H ++ E) (hreads : reads (H ++ E) m.id = reads H m.id) : Unmixed (H ++ E) m.key x := by
  rw [hstage] at hder
  generalize hrs : reads H m.id = rs at hder
  cases hder with
  | transform a p t ha hp =>
    obtain ⟨hplanned, hanalysed⟩ := hs.madeFrom_of_accepts hrs ha hp haccepts
    exact .computed m a p t hended rfl hstage (hreads.trans hrs) (hplanned.mono hquiet)
      fun i hi => (hanalysed i hi).mono hquiet

end Sound

end Pipeline

end ContractMigration
