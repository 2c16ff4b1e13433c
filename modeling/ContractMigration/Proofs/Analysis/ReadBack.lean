import ContractMigration.Analysis.Json
import ContractMigration.Proofs.Graph.FirstSeen
import ContractMigration.Proofs.Repository.ReadBack

/-! What an analysis lists of contracts is read back from what is written for it, and so are its summary and its graph.
A graph is written as three lists and read as three sets; a graph that was built from references has nothing in it
twice, so nothing is lost. -/

namespace ContractMigration

open Json (Value)
open Json.Fields

theorem kind_reader (k : ContractKind) : ContractKind.reader (Value.string k.name).doc = .ok k := by
  cases k <;> rfl

theorem visibility_reader (v : Visibility) : Visibility.reader (Value.string v.name).doc = .ok v := by
  cases v <;> rfl

theorem mutability_reader (m : Mutability) : Mutability.reader (Value.string m.name).doc = .ok m := by
  cases m <;> rfl

theorem edgeKind_reader (k : EdgeKind) : EdgeKind.reader (Value.string k.name).doc = .ok k := by
  cases k <;> rfl

/-! ### Contracts -/

namespace FunctionSignature

/-- How many parameters and results there are is a number of sixty-four bits. -/
structure InRange (f : FunctionSignature) : Prop where
  parameters : f.parameterCount < Nat.pow 2 64
  returns : f.returnCount < Nat.pow 2 64

theorem toJson_eq (f : FunctionSignature) : f.toJson = .object (
    [("name", .string f.name)] ++ [("visibility", .string f.visibility.name)] ++
    (f.mutability.map fun m => ("mutability", .string m.name)).toList ++ [("parameter_count", .nat f.parameterCount)] ++
    [("return_count", .nat f.returnCount)]) := by
  simp [toJson, Json.objectOf_eq, Function.comp_def]

theorem reader_toJson (f : FunctionSignature) : reader f.toJson.doc = .ok f := by
  rw [toJson_eq]
  exact Json.record_object <| (reads_one (Json.string_doc f.name) none).map FunctionSignature.mk
    |>.seq (reads_one (visibility_reader f.visibility) none) (by decide)
    |>.seq (reads_fieldOpt fun m _ => Json.nullable_string (mutability_reader m)) (by decide)
    |>.seq (reads_one (Json.count_doc f.parameterCount) none) (by decide)
    |>.seq (reads_one (Json.count_doc f.returnCount) none) (by decide)

theorem plain_toJson (f : FunctionSignature) (hf : f.InRange) : f.toJson.Plain 1 := by
  rw [toJson_eq]
  refine .object fun m hm => ?_
  simp only [List.mem_append, List.mem_singleton, Option.mem_toList, Option.map_eq_some_iff] at hm
  obtain (((rfl | rfl) | ⟨s, -, rfl⟩) | rfl) | rfl := hm
  · exact .string _
  · exact .string _
  · exact .string _
  · exact .nat hf.parameters
  · exact .nat hf.returns

end FunctionSignature

namespace StateVariable

theorem reader_toJson (v : StateVariable) : reader v.toJson.doc = .ok v :=
  Json.record_object <| (reads_one (Json.string_doc v.name) none).map StateVariable.mk
    |>.seq (reads_one (Json.string_doc v.typeName) none) (by decide)
    |>.seq (reads_one (visibility_reader v.visibility) none) (by decide)
    |>.seq (reads_one (Json.boolean_doc v.constant) none) (by decide)
    |>.seq (reads_one (Json.boolean_doc v.immutable) none) (by decide)

theorem plain_toJson (v : StateVariable) : v.toJson.Plain 1 := by
  simp [toJson]

end StateVariable

namespace ContractUnit

/-- The counts of all functions have sixty-four bits. -/
def InRange (u : ContractUnit) : Prop := ∀ f ∈ u.functions, f.InRange

theorem reader_toJson (u : ContractUnit) : reader u.toJson.doc = .ok u :=
  Json.record_object <| (reads_one (Json.string_doc u.name) none).map ContractUnit.mk
    |>.seq (reads_one (kind_reader u.kind) none) (by decide)
    |>.seq (reads_one (Json.string_doc u.filePath) none) (by decide)
    |>.seq (reads_one (Json.strings_doc u.imports) none) (by decide)
    |>.seq (reads_one (Json.strings_doc u.inherits) none) (by decide)
    |>.seq (reads_one (Json.list_map fun f (_ : f ∈ u.functions) => f.reader_toJson) none) (by decide)
    |>.seq (reads_one (Json.list_map fun v (_ : v ∈ u.stateVariables) => v.reader_toJson) none) (by decide)
    |>.seq (reads_one (Json.boolean_doc u.usesUpgradeablePattern) none) (by decide)
    |>.seq (reads_one (Json.strings_doc u.upgradeMarkers) (some [])) (by decide)

theorem plain_toJson (u : ContractUnit) (hu : u.InRange) : u.toJson.Plain 3 := by
  have hfunctions : ∀ f ∈ u.functions, f.toJson.Plain 1 := fun f hf => f.plain_toJson (hu f hf)
  have hvariables : ∀ v ∈ u.stateVariables, v.toJson.Plain 1 := fun v _ => v.plain_toJson
  simpa [toJson] using ⟨hfunctions, hvariables⟩

end ContractUnit

/-! ### Graphs -/

namespace Edge

theorem reader_toJson (e : Edge) : reader e.toJson.doc = .ok e :=
  Json.record_object <| (reads_one (Json.string_doc e.source) none).map Edge.mk
    |>.seq (reads_one (Json.string_doc e.target) none) (by decide)
    |>.seq (reads_one (edgeKind_reader e.kind) none) (by decide)

theorem plain_toJson (e : Edge) : e.toJson.Plain 1 := by
  simp [toJson]

end Edge

namespace DependencyGraph

/-- The graphs that can be built by declaring names and adding edges. -/
inductive Built : DependencyGraph → Prop
  | empty : Built .empty
  | declare {g : DependencyGraph} (h : Built g) (name : String) : Built (g.declare name)
  | addEdge {g : DependencyGraph} (h : Built g) (e : Edge) : Built (g.addEdge e)

/-- Nothing is listed twice. -/
structure Distinct (g : DependencyGraph) : Prop where
  nodes : g.nodes.Nodup
  declared : g.declared.Nodup
  edges : g.edges.Nodup

theorem Built.distinct {g : DependencyGraph} (h : Built g) : g.Distinct := by
  induction h with
  | empty => exact ⟨List.nodup_nil, List.nodup_nil, List.nodup_nil⟩
  | declare _ name ih => exact ⟨nodup_insertNew ih.nodes name, nodup_insertNew ih.declared name, ih.edges⟩
  | addEdge _ e ih =>
    exact ⟨nodup_insertNew (nodup_insertNew ih.nodes e.source) e.target, ih.declared, nodup_insertNew ih.edges e⟩

theorem setReader_map {α : Type} [DecidableEq α] {r : Json.Reader α} {enc : α → Value} {l : List α} (hl : l.Nodup)
    (h : ∀ a ∈ l, r (enc a).doc = .ok a) : setReader r (Value.list (l.map enc)).doc = .ok l := by
  rw [setReader, Json.listAs_map "a set" h]
  show Except.ok (firstSeen l) = _
  rw [firstSeen_of_nodup hl]

theorem reader_toJson (g : DependencyGraph) (hg : g.Distinct) : reader g.toJson.doc = .ok g :=
  Json.record_object <|
    (reads_one (setReader_map hg.nodes fun s _ => Json.string_doc s) none).map DependencyGraph.mk
      |>.seq (reads_one (setReader_map hg.declared fun s _ => Json.string_doc s) none) (by decide)
      |>.seq (reads_one (setReader_map hg.edges fun e _ => e.reader_toJson) none) (by decide)

theorem plain_toJson (g : DependencyGraph) : g.toJson.Plain 3 := by
  have hedges : ∀ e ∈ g.edges, e.toJson.Plain 1 := fun e _ => e.plain_toJson
  simpa [toJson] using hedges

end DependencyGraph

/-! ### Summaries -/

namespace AnalysisStats

/-- All the counts, in the order in which they are written. -/
def counts (s : AnalysisStats) : List Nat :=
  [s.filesScanned, s.filesParsed, s.filesSkipped, s.contracts, s.abstractContracts, s.interfaces, s.libraries,
    s.functions, s.stateVariables, s.importEdges, s.inheritanceEdges, s.unresolvedReferences, s.upgradeableContracts,
    s.elapsedMs]

theorem reader_toJson (s : AnalysisStats) : reader s.toJson.doc = .ok s :=
  Json.record_object <| (reads_one (Json.count_doc s.filesScanned) none).map AnalysisStats.mk
    |>.seq (reads_one (Json.count_doc s.filesParsed) none) (by decide)
    |>.seq (reads_one (Json.count_doc s.filesSkipped) none) (by decide)
    |>.seq (reads_one (Json.count_doc s.contracts) none) (by decide)
    |>.seq (reads_one (Json.count_doc s.abstractContracts) none) (by decide)
    |>.seq (reads_one (Json.count_doc s.interfaces) none) (by decide)
    |>.seq (reads_one (Json.count_doc s.libraries) none) (by decide)
    |>.seq (reads_one (Json.count_doc s.functions) none) (by decide)
    |>.seq (reads_one (Json.count_doc s.stateVariables) none) (by decide)
    |>.seq (reads_one (Json.count_doc s.importEdges) none) (by decide)
    |>.seq (reads_one (Json.count_doc s.inheritanceEdges) none) (by decide)
    |>.seq (reads_one (Json.count_doc s.unresolvedReferences) none) (by decide)
    |>.seq (reads_one (Json.count_doc s.upgradeableContracts) none) (by decide)
    |>.seq (reads_one (Json.size_doc s.elapsedMs) none) (by decide)

theorem plain_toJson (s : AnalysisStats) (hs : ∀ n ∈ s.counts, n < Nat.pow 2 64) : s.toJson.Plain 1 := by
  simpa [toJson, counts] using hs

end AnalysisStats

namespace ContractSummary

/-- How many functions and variables there are is a number of sixty-four bits. -/
structure InRange (c : ContractSummary) : Prop where
  functions : c.externalFunctions < Nat.pow 2 64
  state : c.stateVariables < Nat.pow 2 64

theorem reader_toJson (c : ContractSummary) : reader c.toJson.doc = .ok c :=
  Json.record_object <| (reads_one (Json.string_doc c.name) none).map ContractSummary.mk
    |>.seq (reads_one (kind_reader c.kind) none) (by decide)
    |>.seq (reads_one (Json.string_doc c.filePath) none) (by decide)
    |>.seq (reads_one (Json.strings_doc c.inherits) none) (by decide)
    |>.seq (reads_one (Json.count_doc c.externalFunctions) none) (by decide)
    |>.seq (reads_one (Json.count_doc c.stateVariables) none) (by decide)
    |>.seq (reads_one (Json.boolean_doc c.upgradeable) none) (by decide)

theorem plain_toJson (c : ContractSummary) (hc : c.InRange) : c.toJson.Plain 2 := by
  simpa [toJson] using And.intro hc.functions hc.state

end ContractSummary

namespace AnalysisSummary

/-- All counts have sixty-four bits. -/
structure InRange (s : AnalysisSummary) : Prop where
  contracts : ∀ c ∈ s.contracts, c.InRange
  stats : ∀ n ∈ s.stats.counts, n < Nat.pow 2 64

theorem reader_toJson (s : AnalysisSummary) : reader s.toJson.doc = .ok s :=
  Json.record_object <| (reads_one s.key.reader_toJson none).map AnalysisSummary.mk
    |>.seq (reads_one (Json.list_map fun c (_ : c ∈ s.contracts) => c.reader_toJson) none) (by decide)
    |>.seq (reads_one (Json.strings_doc s.entryPoints) none) (by decide)
    |>.seq (reads_one (Json.strings_doc s.upgradeable) none) (by decide)
    |>.seq (reads_one (Json.strings_doc s.unresolvedReferences) none) (by decide)
    |>.seq (reads_one s.stats.reader_toJson none) (by decide)

theorem plain_toJson (s : AnalysisSummary) (hs : s.InRange) : s.toJson.Plain 4 := by
  have hkey : s.key.toJson.Plain 3 := s.key.plain_toJson.mono (by decide)
  have hcontracts : ∀ c ∈ s.contracts, c.toJson.Plain 2 := fun c hc => c.plain_toJson (hs.contracts c hc)
  have hstats : s.stats.toJson.Plain 3 := (s.stats.plain_toJson hs.stats).mono (by decide)
  simpa [toJson] using ⟨hkey, hcontracts, hstats⟩

end AnalysisSummary

end ContractMigration
