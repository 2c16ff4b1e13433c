import ContractMigration.Plan.Reply
import ContractMigration.Proofs.Json.Records

/-! Recommendations, changes and responses are read back from what is written for them, and the readers of the last two
take no faulty document. -/

namespace ContractMigration

open Json (Value Careful)
open Json.Fields

theorem level_reader (l : Level) : Level.reader (Value.string l.name).doc = .ok l := by
  cases l <;> rfl

theorem topic_reader (t : Topic) : Topic.reader (Value.string t.name).doc = .ok t := by
  cases t <;> rfl

theorem action_reader (a : TransformAction) : TransformAction.reader (Value.string a.name).doc = .ok a := by
  cases a <;> rfl

namespace Recommendation

theorem toJson_eq (r : Recommendation) : r.toJson = .object (
    [("file_path", .string r.filePath)] ++ (r.contractName.map fun s => ("contract_name", .string s)).toList ++
    [("category", .string r.topic.name)] ++ [("description", .string r.description)] ++
    [("rationale", .string r.rationale)] ++ [("confidence_level", .string r.level.name)]) := by
  simp [toJson, Json.objectOf_eq, Function.comp_def]

theorem reader_toJson (r : Recommendation) : reader r.toJson.doc = .ok r := by
  rw [toJson_eq]
  refine Json.record_object (.seq (.seq (.seq (.seq (.seq (.map ?_ _) ?_ (by decide)) ?_ (by decide)) ?_ (by decide))
    ?_ (by decide)) ?_ (by decide))
  · exact reads_one (Json.string_doc _) none
  · exact reads_fieldOpt fun s _ => Json.nullable_string (Json.string_doc s)
  · exact reads_one (topic_reader _) none
  · exact reads_one (Json.string_doc _) none
  · exact reads_one (Json.string_doc _) (some "")
  · exact reads_one (level_reader _) none

theorem plain_toJson (r : Recommendation) : r.toJson.Plain 1 := by
  rw [toJson_eq]
  refine .object fun m hm => ?_
  simp only [List.mem_append, List.mem_singleton, Option.mem_toList, Option.map_eq_some_iff] at hm
  obtain ((((rfl | ⟨s, -, rfl⟩) | rfl) | rfl) | rfl) | rfl := hm <;> exact .string _

end Recommendation

namespace AppliedChange

theorem toJson_eq (c : AppliedChange) : c.toJson = .object ([("description", .string c.description)] ++
    (c.recommendation.map fun n => ("recommendation", .nat n)).toList ++
    (c.level.map fun l => ("confidence", .string l.name)).toList) := by
  simp [toJson, Json.objectOf_eq, Function.comp_def]

theorem reader_toJson (c : AppliedChange) : reader c.toJson.doc = .ok c := by
  rw [toJson_eq]
  refine Json.record_object (.seq (.seq (.map ?_ _) ?_ (by decide)) ?_ (by decide))
  · exact reads_one (Json.string_doc _) none
  · exact reads_fieldOpt fun n _ => Json.nullable_nat (Json.count_doc n)
  · exact reads_fieldOpt fun l _ => Json.nullable_string (level_reader l)

theorem careful_reader : Careful reader := by
  refine Json.careful_record _ (.seq (.seq (.map ?_ _) ?_) ?_)
  · exact careful_one _ (Json.careful_stringAs _) none
  · exact careful_one _ (Json.careful_nullable (Json.careful_natural _)) (some none)
  · exact careful_one _ (Json.careful_nullable (Json.careful_variant _ _)) (some none)

/-- The number of the recommendation is a count of sixty-four bits, as the reader takes it. -/
def InRange (c : AppliedChange) : Prop := ∀ n ∈ c.recommendation, n < Nat.pow 2 64

theorem plain_toJson (c : AppliedChange) (hc : c.InRange) : c.toJson.Plain 1 := by
  rw [toJson_eq]
  refine .object fun m hm => ?_
  simp only [List.mem_append, List.mem_singleton, Option.mem_toList, Option.map_eq_some_iff] at hm
  obtain (rfl | ⟨n, hn, rfl⟩) | ⟨l, -, rfl⟩ := hm
  · exact .string _
  · exact .nat (hc n hn)
  · exact .string _

end AppliedChange

namespace TransformResponse

theorem toJson_eq (r : TransformResponse) : r.toJson = .object ([("action", .string r.action.name)] ++
    [("applied_changes", .list (r.appliedChanges.map AppliedChange.toJson))] ++
    (r.transformedCode.map fun s => ("transformed_code", .string s)).toList ++
    [("warnings", .list (r.warnings.map .string))]) := by
  simp [toJson, Json.objectOf_eq, Function.comp_def, Json.strings]

theorem reader_toJson (r : TransformResponse) : reader r.toJson.doc = .ok r := by
  rw [toJson_eq]
  refine Json.record_object (.seq (.seq (.seq (.map ?_ _) ?_ (by decide)) ?_ (by decide)) ?_ (by decide))
  · exact reads_one (action_reader _) none
  · exact reads_one (Json.list_map fun c _ => c.reader_toJson) (some [])
  · exact reads_fieldOpt fun s _ => Json.nullable_string (Json.string_doc s)
  · exact reads_one (Json.list_map fun s _ => Json.string_doc s) (some [])

theorem careful_reader : Careful reader := by
  refine Json.careful_record _ (.seq (.seq (.seq (.map ?_ _) ?_) ?_) ?_)
  · exact careful_one _ (Json.careful_variant _ _) none
  · exact careful_one _ (Json.careful_listAs _ AppliedChange.careful_reader) (some [])
  · exact careful_one _ (Json.careful_nullable (Json.careful_stringAs _)) (some none)
  · exact careful_one _ (Json.careful_listAs _ (Json.careful_stringAs _)) (some [])

theorem plain_toJson (r : TransformResponse) (hr : ∀ c ∈ r.appliedChanges, c.InRange) : r.toJson.Plain 3 := by
  rw [toJson_eq]
  refine .object fun m hm => ?_
  simp only [List.mem_append, List.mem_singleton, Option.mem_toList, Option.map_eq_some_iff] at hm
  obtain ((rfl | rfl) | ⟨s, -, rfl⟩) | rfl := hm
  · exact .string _
  · refine .list fun v hv => ?_
    obtain ⟨c, hc, rfl⟩ := List.mem_map.1 hv
    exact c.plain_toJson (hr c hc)
  · exact .string _
  · refine .list fun v hv => ?_
    obtain ⟨s, -, rfl⟩ := List.mem_map.1 hv
    exact .string s

end TransformResponse

end ContractMigration
