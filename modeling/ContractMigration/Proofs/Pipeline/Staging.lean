import ContractMigration.Proofs.Cache.Staging
import ContractMigration.Proofs.Pipeline.Requests
import ContractMigration.Proofs.Session.Staging

/-! Stages are kept apart in a pipeline. The computation of a stage looks at the stages that it waits for to see whether they
hold what they should, and they always do: so it never fails for that, and fails by itself only as the host does for a tree.
Nobody is ever told, then, that there is an artifact of some other stage in the place of the one that was asked for. -/

namespace ContractMigration

/-- The host fails to tell what a repository is, its tree or the texts at hand in some way only; other answers are as they
may. -/
def Question.HostFails (B : Failure → Prop) : (q : Question) → q.Answer → Prop
  | .metadata _, r => @OnlyFails Metadata B r
  | .tree _, r => @OnlyFails RepositoryTree B r
  | .prefetch _ _, r => @OnlyFails (Option Sources) B r
  | .content _ _, _ => True
  | .generate _, _ => True
  | .transform _, _ => True
  | .clock, _ => True

/-- A failure that is not about an artifact of some other stage than the one that is wanted. -/
def NotMismatch (e : Failure) : Prop := ∀ wanted found, e ≠ Artifact.mismatch wanted found

theorem notMismatch_of_cacheState {e : Failure} (he : e.kind = .cacheState) : NotMismatch e := by
  rintro wanted found rfl
  cases he

namespace Task

variable {β γ : Type} {B : Failure → Prop} {k : Key}

/-- While the host, and the stages that it waits for, fail in some way only, so does a computation. -/
def Confined (B : Failure → Prop) (t : Task β) : Prop := Routine.Confined (Question.HostFails B) B (OnlyFails B) t.run

theorem confined_pure (b : β) : Confined B (pure b : Task β) := nofun

theorem confined_bind {t : Task β} {f : β → Task γ} (ht : Confined B t) (hf : ∀ b, Confined B (f b)) :
    Confined B (t >>= f) := by
  refine Routine.Confined.bind ht fun r hr => ?_
  cases r with
  | error e =>
    rintro e' ⟨⟩
    exact hr e rfl
  | ok b => exact hf b

theorem confined_lift {r : Routine Outside Product β} (hr : r.ReadsNothing) : Confined B (ExceptT.lift r : Task β) :=
  (hr.confined (P := fun _ => True) fun _ => trivial).bind fun _ _ => nofun

theorem confined_cachedIngest (k : Key) : Confined B (Task.cachedIngest k) := fun _ => nofun

theorem confined_need {st : Stage} {f : Artifact Product → Task β} (hf : ∀ a, a.stage = st → Confined B (f a)) :
    Confined B (ExceptT.mk (Routine.need k st) >>= f) := by
  intro r hr
  cases r with
  | error e =>
    rintro e' ⟨⟩
    exact hr.2 e rfl
  | ok a => exact hf a (hr.1 a rfl)

theorem confined_ingest : Confined B (Task.ingest k) := by
  refine confined_need fun a ha => ?_
  obtain ⟨id, v⟩ := a
  cases v with
  | tree i => exact confined_pure _
  | _ => cases ha

theorem confined_analysis : Confined B (Task.analysis k) := by
  refine confined_need fun a ha => ?_
  obtain ⟨id, v⟩ := a
  cases v with
  | analysis x => exact confined_pure _
  | _ => cases ha

theorem confined_plan : Confined B (Task.plan k) := by
  refine confined_need fun a ha => ?_
  obtain ⟨id, v⟩ := a
  cases v with
  | plan x => exact confined_pure _
  | _ => cases ha

end Task

namespace Pipeline

open Session Usage ContractMigration.Task

variable {B : Failure → Prop}

/-- The computation of a stage fails by itself only as the host does. -/
theorem confined_task (p : Pipeline) (k : Key) (st : Stage) :
    (p.task k st).Confined (Question.HostFails B) B (OnlyFails B) := by
  cases st with
  | tree =>
    have hmetadata : Task.Confined B (Task.metadata k) := fun r hr => hr
    have htree : Task.Confined B (Task.tree k) := fun r hr => hr
    have hprefetch : ∀ t, Task.Confined B (Task.prefetch k t) := fun t r hr => hr
    refine confined_bind hmetadata fun metadata => confined_bind htree fun tree => ?_
    refine confined_bind (hprefetch tree) fun sources => ?_
    exact confined_bind (confined_lift (readsNothing_ask _)) fun now => confined_pure _
  | analysis =>
    refine confined_bind confined_ingest ?_
    rintro ⟨t, i⟩
    refine confined_bind (confined_lift (Routine.readsNothing_buffered _ (p.readsNothing_fetchInput k i) _)) fun inputs => ?_
    refine confined_bind (confined_lift (readsNothing_ask _)) fun begun => ?_
    refine confined_bind (confined_lift trivial) fun _ => ?_
    exact confined_bind (confined_lift (readsNothing_ask _)) fun now => confined_pure _
  | plan =>
    refine confined_bind confined_analysis ?_
    rintro ⟨a, x⟩
    have hplan : ∀ reply, Task.Confined B
        (clock >>= fun now => pure (Product.plan (makePlan k x reply now), [a])) := fun reply =>
      confined_bind (confined_lift (readsNothing_ask _)) fun now => confined_pure _
    dsimp only
    split_ifs
    · exact confined_bind (confined_lift ((readsNothing_ask _).bind fun _ => trivial)) hplan
    · exact hplan none
  | transform =>
    refine confined_bind confined_analysis ?_
    rintro ⟨a, x⟩
    refine confined_bind confined_plan ?_
    rintro ⟨b, y⟩
    refine confined_bind (confined_cachedIngest k) fun i => ?_
    refine confined_bind (confined_lift (Routine.readsNothing_buffered _ (fun _ => p.readsNothing_transformFile k i _ _) _))
      fun outcomes => ?_
    refine confined_bind (confined_lift trivial) fun _ => ?_
    exact confined_bind (confined_lift (readsNothing_ask _)) fun now => confined_pure _

/-! ### Requests -/

/-- A request to a pipeline goes to the cache with the computation of the stage, or it is answered at once: with an artifact of
the stage, or that nothing is at hand. -/
theorem call_enters_or_answers (p : Pipeline) {s : Session Outside Product} (hs : Valid s.usage) (k : Key) (st : Stage) :
    (∃ s', Looked s s' ∧ p.call s k st = s'.enter k st (p.task k st)) ∨
    ∃ s' r, Looked s s' ∧ p.call s k st = (.settled r, s') ∧ Proper (·.kind = .cacheState) st r := by
  rcases hp : p.hasRepository with _ | _
  · rcases call_cases hp hs k st with ⟨-, s', reason, hlook, e⟩ | ⟨rfl, x, s', hx, hlook, e⟩ | ⟨-, -, s', hlook, e⟩
    · exact .inr ⟨s', _, hlook, e, nofun, fun e he => Except.error.inj he ▸ rfl⟩
    · obtain ⟨y, hy, rfl⟩ := Cache.slot?_of_visible? hx
      exact .inr ⟨s', _, hlook, e, fun z hz => Except.ok.inj hz ▸ hs.staged k .tree y hy, nofun⟩
    · exact .inl ⟨s', hlook, e⟩
  · exact .inl ⟨s, .refl, by rw [call, if_pos hp]⟩

theorem answersProperly_call (p : Pipeline) : AnswersProperly p.call (·.kind = .cacheState) := by
  intro H s k st r hs hr
  rcases p.call_enters_or_answers hs.valid k st with ⟨s', hlook, e⟩ | ⟨s', r', -, e, hproper⟩ <;> rw [e] at hr
  · obtain ⟨x, rfl, hx⟩ := exists_of_enter_settled (hlook.valid hs.valid) hr
    exact ⟨fun y hy => Except.ok.inj hy ▸ hx, nofun⟩
  · exact Ticket.settled.inj hr ▸ hproper

theorem confinedCalls_call (p : Pipeline) (hB : ∀ e : Failure, e.kind = .cacheState → B e) :
    ConfinedCalls p.call (Question.HostFails B) B := by
  refine ⟨fun H s k st r hs hr => ?_, fun H s k st hs f hf => ?_⟩
  · exact (p.answersProperly_call H s k st r hs hr).imp_right fun h e he => hB e (h e he)
  · rcases p.call_enters_or_answers hs.valid k st with ⟨s', hlook, e⟩ | ⟨s', r, hlook, e, -⟩ <;> rw [e] at hf <;>
      obtain ⟨c, rfl, -⟩ := hlook.frame
    · exact (mem_flights_enter.mp hf).imp_right fun h => ⟨_, h.2, p.confined_task k st⟩
    · exact .inl hf

/-- Stages are kept apart. Whatever is done with a cache, a slot holds an artifact of its stage, a handle is of a computation
that comes to one or fails, what a request is served with passes the check of the stage, and a look finds nothing only where
nothing is stored that is young enough. Whatever computations callers bring along, and in whatever order everything goes on:
who asks for a stage, a caller or a computation, gets an artifact of it at once, or waits for a computation of it and is told
what that has ended with, which is an artifact of the stage if it is one; the check changes nothing about it. As long as no
computation makes up such a failure by itself, nobody is ever told that a slot holds what another stage made. All the same
holds of a pipeline, which makes up no such failure: there it is enough that the host reports none. -/
theorem stages_kept_apart (lifetime capacity : ℕ) {I : Interface} {α : Type} [Staged α]
    (work : Session I α → Key → (st : Stage) → Routine I α (Yield α st)) (p : Pipeline) :
    (∀ acts : List (Action α), Staging (run acts (Usage.start lifetime capacity))) ∧
    Checked (callWith work) (fun _ => False) (.empty lifetime capacity) ∧
    (∀ fine, (∀ s k st, (work s k st).Confined fine NotMismatch (YieldFails NotMismatch)) →
      Tells (callWith work) fine NotMismatch (.empty lifetime capacity)) ∧
    Checked p.call (·.kind = .cacheState) p.newCache ∧
    Tells p.call (Question.HostFails NotMismatch) NotMismatch p.newCache :=
  ⟨staging_run lifetime capacity, checked (lawful_callWith work) (answersProperly_callWith work) lifetime capacity,
    fun _ hwork => tells (lawful_callWith work) (confinedCalls_callWith hwork) lifetime capacity,
    checked p.lawful_call p.answersProperly_call _ _,
    tells p.lawful_call (p.confinedCalls_call fun _ => notMismatch_of_cacheState) _ _⟩

/-- Two callers ask for a tree. The second one waits for the computation of the first one, and is told the tree that it ends
with. In a pipeline without a host, who asks for a plan is told that there is nothing at hand. -/
theorem stages_kept_apart_twice :
    let k : Key := ⟨"acme", "vaults"⟩
    let work : Session ⟨Empty, fun _ => Empty⟩ Stage → Key → (st : Stage) → Routine ⟨Empty, fun _ => Empty⟩ Stage
      (Yield Stage st) := fun _ _ st => .done (.value st [] rfl)
    let whole := play (callWith work) [.ask k .tree, .ask k .tree, .go 0 nofun] (.start (.empty 60000 8))
    let p : Pipeline := ⟨.default, false, false, false⟩
    (∃ m r, m.stage = .tree ∧ .ended m r ∈ whole.1 ∧ whole.2.told? .tree (.waiting 0) = some r ∧
      Proper NotMismatch .tree r) ∧
    ∃ e, (play p.call [.ask k .plan] (.start p.newCache)).2.told? .plan (p.call (.start p.newCache) k .plan).1 =
      some (.error e) ∧ NotMismatch e := by
  intro k work whole p
  obtain ⟨-, hchecked, htells, -, hpipeline⟩ := stages_kept_apart 60000 8 work p
  have hwork : ∀ s k st, (work s k st).Confined (fun _ _ => True) NotMismatch (YieldFails NotMismatch) :=
    fun _ _ _ => nofun
  have hserves : ∀ b ∈ ([.ask k .tree] ++ .ask k .tree :: [.go 0 nofun] : List (Move ⟨Empty, fun _ => Empty⟩ Stage)),
      b.Serves fun _ _ => True := by simp [Move.Serves]
  obtain ⟨hsame, m, -, -, hstage, hended⟩ := hchecked.waiting [.ask k .tree] (.ask k .tree) [.go 0 nofun] k .tree 0
    ⟨rfl, rfl⟩ rfl
  have hproper := htells (fun _ _ => True) hwork [.ask k .tree] (.ask k .tree) [.go 0 nofun] k .tree (.ok ⟨0, .tree⟩)
    hserves ⟨rfl, rfl⟩ rfl
  refine ⟨⟨m, .ok ⟨0, .tree⟩, hstage, (hended _ rfl).1, rfl, hproper⟩, ?_⟩
  refine ⟨missing k "artifact not cached and no repository client configured", rfl, ?_⟩
  exact (hpipeline [] (.ask k .plan) [] k .plan _ (by simp [Move.Serves]) ⟨rfl, rfl⟩ rfl).2 _ rfl

end Pipeline

end ContractMigration
