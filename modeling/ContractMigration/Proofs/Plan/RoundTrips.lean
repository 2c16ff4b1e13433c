import ContractMigration.Proofs.Analysis.ReadBack
import ContractMigration.Proofs.Plan.Replies

/-! What is written as JSON is read back as it was, whatever stands in its strings: requests and responses, what is known
of contracts and of their graph, trees as deep as brackets may lie, and recommendations in either of their two forms. -/

namespace ContractMigration

open Json (Value RoundTrips)
open Json.Fields

namespace TransformRequest

theorem reader_toJson (r : TransformRequest) : reader r.toJson.doc = .ok r :=
  Json.record_object <| (reads_one r.key.reader_toJson none).map TransformRequest.mk
    |>.seq (reads_one (Json.string_doc r.filePath) none) (by decide)
    |>.seq (reads_one (Json.string_doc r.source) none) (by decide)
    |>.seq (reads_one (Json.list_map fun c (_ : c ∈ r.recommendations) => c.reader_toJson) none) (by decide)

theorem plain_toJson (r : TransformRequest) : r.toJson.Plain 3 := by
  have hkey : r.key.toJson.Plain 2 := r.key.plain_toJson.mono (by decide)
  have hrecommendations : ∀ c ∈ r.recommendations, c.toJson.Plain 1 := fun c _ => c.plain_toJson
  simpa [toJson] using ⟨hkey, hrecommendations⟩

end TransformRequest

/-- Each spelling of a level is read as the level. -/
theorem Level.reader_of_mem_cases {c : Json.Case Level} (hc : c ∈ cases) {name : String} (hname : name ∈ c.names) :
    reader (Value.string name).doc = .ok c.value := by
  obtain rfl | rfl | rfl : c = _ ∨ c = _ ∨ c = _ := by simpa [cases] using hc
  all_goals
    obtain rfl | rfl | rfl : name = _ ∨ name = _ ∨ name = _ := by simpa using hname
    all_goals rfl

/-- Everything that is written for collaborators and by them is read back as it was, in either layout: with numbers of
sixty-four bits, with members that are absent, with each spelling of a level, with counts by category, and with
directories inside each other as far as brackets may be open. Recommendations are read from both of their forms. -/
theorem json_round_trips :
    (∀ r : TransformResponse, (∀ c ∈ r.appliedChanges, c.InRange) → RoundTrips TransformResponse.reader r.toJson r) ∧
      (∀ c : AppliedChange, c.InRange → RoundTrips AppliedChange.reader c.toJson c) ∧
      (∀ r : Recommendation, RoundTrips Recommendation.reader r.toJson r) ∧
      (∀ c ∈ Level.cases, ∀ name ∈ c.names, RoundTrips Level.reader (.string name) c.value) ∧
      (∀ r : TransformRequest, RoundTrips TransformRequest.reader r.toJson r) ∧
      (∀ f : FunctionSignature, f.InRange → RoundTrips FunctionSignature.reader f.toJson f) ∧
      (∀ v : StateVariable, RoundTrips StateVariable.reader v.toJson v) ∧
      (∀ u : ContractUnit, u.InRange → RoundTrips ContractUnit.reader u.toJson u) ∧
      (∀ t : RepositoryTree, t.InRange → t.counts.Ordered Category.rank → t.toJson.depth ≤ Json.maxDepth →
        RoundTrips RepositoryTree.reader t.toJson t) ∧
      (∀ m : Metadata, m.InRange → RoundTrips Metadata.reader m.toJson m) ∧
      (∀ s : AnalysisSummary, s.InRange → RoundTrips AnalysisSummary.reader s.toJson s) ∧
      (∀ g : DependencyGraph, g.Built → RoundTrips DependencyGraph.reader g.toJson g) ∧
      ∀ rs : List Recommendation, ∀ v ∈ [Recommendation.listJson rs, Recommendation.wrappedJson rs],
        ∀ reply ∈ [v.render, v.renderPretty], readRecommendations reply = .valid rs := by
  refine ⟨fun r hr => ?_, fun c hc => ?_, fun r => ?_, fun c hc name hname => ?_, fun r => ?_, fun f hf => ?_,
    fun v => ?_, fun u hu => ?_, fun t ht hcounts hdepth => ?_, fun m hm => ?_, fun s hs => ?_, fun g hg => ?_,
    fun rs v hv reply hreply => ?_⟩
  · exact Json.roundTrips_of_plain (r.plain_toJson hr) (by decide) r.reader_toJson
  · exact Json.roundTrips_of_plain (c.plain_toJson hc) (by decide) c.reader_toJson
  · exact Json.roundTrips_of_plain r.plain_toJson (by decide) r.reader_toJson
  · exact Json.roundTrips_of_plain (.string name) (Nat.zero_le _) (Level.reader_of_mem_cases hc hname)
  · exact Json.roundTrips_of_plain r.plain_toJson (by decide) r.reader_toJson
  · exact Json.roundTrips_of_plain (f.plain_toJson hf) (by decide) f.reader_toJson
  · exact Json.roundTrips_of_plain v.plain_toJson (by decide) v.reader_toJson
  · exact Json.roundTrips_of_plain (u.plain_toJson hu) (by decide) u.reader_toJson
  · exact Json.roundTrips_of_plain (t.plain_toJson ht) hdepth (t.reader_toJson hcounts hdepth)
  · exact Json.roundTrips_of_plain (m.plain_toJson hm) (by decide) m.reader_toJson
  · exact Json.roundTrips_of_plain (s.plain_toJson hs) (by decide) s.reader_toJson
  · exact Json.roundTrips_of_plain g.plain_toJson (by decide) (g.reader_toJson hg.distinct)
  · have hreads : ReadsBack recommendationsReader v rs := by
      obtain rfl | rfl : v = _ ∨ v = _ := by simpa using hv
      · exact Recommendation.readsBack_listJson rs
      · exact Recommendation.readsBack_wrappedJson rs
    exact (hreads.readAs reply hreply).1

/-- A response with a change that follows the last recommendation that can be numbered, a tree with a file in a
directory, a tree without files, and a graph of one reference. -/
theorem json_round_trips_examples :
    let response : TransformResponse := ⟨.apply, [⟨"Use \"call\"\n", some (Nat.pow 2 64 - 1), none⟩], none, ["\x00"]⟩
    let file : FileNode := ⟨"src/A.sol", "A.sol", Nat.pow 2 64 - 1, .contract⟩
    let tree : RepositoryTree := ⟨.mk "" [] [.mk "src" [file] []], [(.contract, 1)]⟩
    let bare : RepositoryTree := ⟨.empty "", []⟩
    let graph : DependencyGraph := DependencyGraph.addEdge (.declare .empty "A") ⟨"A", "B", .inheritance⟩
    RoundTrips TransformResponse.reader response.toJson response ∧ RoundTrips RepositoryTree.reader tree.toJson tree ∧
      RoundTrips RepositoryTree.reader bare.toJson bare ∧ RoundTrips DependencyGraph.reader graph.toJson graph := by
  intro response file tree bare graph
  obtain ⟨hresponse, -, -, -, -, -, -, -, htree, -, -, hgraph, -⟩ := json_round_trips
  refine ⟨hresponse response ?_, htree tree ⟨?_, ?_⟩ ?_ ?_, htree bare ⟨?_, ?_⟩ ?_ ?_, hgraph graph (.addEdge (.declare .empty "A") _)⟩
  · unfold AppliedChange.InRange
    decide
  · decide
  · decide
  · unfold Tally.Ordered
    decide
  · decide
  · decide
  · decide
  · unfold Tally.Ordered
    decide
  · decide

end ContractMigration
