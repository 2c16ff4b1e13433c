import ContractMigration.Proofs.Json.RoundTrip
import ContractMigration.Proofs.Plan.ReadBack

/-! Replies in a block mean the same as bare replies, unless three backticks stand together in one of their strings:
then the block ends there, what is left of the reply is faulty, and the reply is malformed. -/

namespace ContractMigration

open Json (Reader Value Spells Careful Document)

/-- The reply in a block of its own. -/
def inBlock (reply : String) : String := "```json\n" ++ reply ++ "\n```"

theorem toList_inBlock (t : List Char) : (inBlock (String.ofList t)).toList = Text.fenced t := by
  simp [inBlock, Text.fenced, Text.fence]

/-- No three backticks stand together in a string of the value. -/
def Json.Value.Fenceless (v : Value) : Prop := ∀ s ∈ v.strings, ¬ Text.fence <:+: s.toList

/-! ### Reading replies -/

/-- The value is a list or object that the reader takes, and the reader takes no faulty document. -/
structure ReadsBack {α : Type} (r : Reader α) (v : Value) (a : α) : Prop where
  container : v.IsContainer
  plain : ∃ n ≤ Json.maxDepth, v.Plain n
  taken : r v.doc = .ok a
  careful : Careful r

namespace ReadsBack

variable {α : Type} {r : Reader α} {v : Value} {a : α} {n : Nat} {t : List Char} {raw : String}

theorem read_of_content (hcontent : Text.unfenced raw.toList = t) (ht : t ≠ []) :
    Reply.read r raw = match Json.read r (String.ofList t) with
      | .ok a => .valid a
      | .error e => .broken raw e.message := by
  subst hcontent
  have hne : ¬ (Reply.content raw).isEmpty = true := by simpa [Reply.content] using ht
  exact if_neg hne

/-- A reply whose content spells the value is valid. -/
theorem read_of_spells (h : ReadsBack r v a) (ht : Spells n v t) (hn : n ≤ Json.maxDepth)
    (hcontent : Text.unfenced raw.toList = t) : Reply.read r raw = .valid a := by
  rw [read_of_content hcontent (ht.edged h.container).ne_nil, Json.read_of_spells ht hn h.taken]

/-- A reply whose content is the beginning of a spelling of the value is malformed. -/
theorem read_of_cut_off {p q : List Char} (h : ReadsBack r v a) (ht : Spells n v (p ++ q)) (hn : n ≤ Json.maxDepth)
    (hp : p ≠ []) (hq : q ≠ []) (hcontent : Text.unfenced raw.toList = p) :
    ∃ reason, Reply.read r raw = .broken raw reason := by
  have hcuts := ht.cuts hn (q := []) (by simp [Json.Stops])
  rw [List.append_nil] at hcuts
  have hopens : Json.Opens p := by
    obtain ⟨c, p, rfl⟩ := List.exists_cons_of_ne_nil hp
    obtain ⟨s, hs | hs⟩ := ht.opens h.container
    · exact ⟨p, .inl (by rw [(List.cons.inj hs).1])⟩
    · exact ⟨p, .inr (by rw [(List.cons.inj hs).1])⟩
  obtain ⟨d, hparse, hcut⟩ := Document.parse_of_cut_off hcuts hopens hq
  obtain ⟨e, he⟩ := h.careful d ((Json.faulty _).value hcut)
  have hread : Json.read r (String.ofList p) = .error e := by
    simp only [Json.read, hparse, he]
    rfl
  exact ⟨e.message, by rw [read_of_content hcontent hp, hread]⟩

/-- What a spelling of the value means bare and in a block. -/
theorem bare_and_inBlock (h : ReadsBack r v a) (ht : Spells n v t) (hn : n ≤ Json.maxDepth) :
    Reply.read r (String.ofList t) = .valid a ∧
      (v.Fenceless → Reply.read r (inBlock (String.ofList t)) = .valid a) ∧
      (¬ v.Fenceless → ∃ reason, Reply.read r (inBlock (String.ofList t)) = .broken (inBlock (String.ofList t)) reason) := by
  have hedged := ht.edged h.container
  have hfence : Text.fence <:+: t ↔ ¬ v.Fenceless := by
    rw [ht.strung.fence_infix_iff, Value.Fenceless]
    simp only [not_forall, not_not, exists_prop]
  refine ⟨?_, fun hless => ?_, fun hless => ?_⟩
  · exact h.read_of_spells ht hn (by rw [String.toList_ofList, hedged.unfenced ht.strung.sheltered])
  · refine h.read_of_spells ht hn ?_
    rw [toList_inBlock, hedged.unfenced_fenced fun hin => hfence.1 hin hless]
  · have hhead : t.head? ≠ some '\x60' := by
      obtain ⟨s, rfl | rfl⟩ := ht.opens h.container <;> simp
    obtain ⟨p, q, rfl, hp, hq, hcontent⟩ := hedged.unfenced_fenced_cut hhead (hfence.2 hless)
    exact h.read_of_cut_off ht hn hp hq (by rw [toList_inBlock, hcontent])

end ReadsBack

/-! ### Replies of generators and transformers -/

namespace Recommendation

/-- Recommendations as a list. -/
def listJson (rs : List Recommendation) : Value := .list (rs.map toJson)

/-- Recommendations as an object that holds the list. -/
def wrappedJson (rs : List Recommendation) : Value := .object [("recommendations", listJson rs)]

theorem plain_listJson (rs : List Recommendation) : (listJson rs).Plain 2 := by
  refine .list fun v hv => ?_
  obtain ⟨r, -, rfl⟩ := List.mem_map.1 hv
  exact r.plain_toJson

theorem list_reader_listJson (rs : List Recommendation) : Json.list reader (listJson rs).doc = .ok rs :=
  Json.list_map fun r _ => r.reader_toJson

theorem recommendationsReader_doc (v : Value) : recommendationsReader v.doc =
    match Json.list reader v.doc with
    | .ok rs => .ok rs
    | .error _ => match wrappedRecommendations v.doc with
      | .ok rs => .ok rs
      | .error _ => .error (.noMatch "RecommendationPayload") := by
  rw [recommendationsReader, Json.value_doc]
  rfl

theorem wrappedRecommendations_wrappedJson (rs : List Recommendation) :
    wrappedRecommendations (wrappedJson rs).doc = .ok rs :=
  @Json.record_object _ "RecommendationPayload" _ _ _ (.map (Json.Fields.reads_one (list_reader_listJson rs) none) id)

theorem readsBack_listJson (rs : List Recommendation) : ReadsBack recommendationsReader (listJson rs) rs where
  container := trivial
  plain := ⟨2, by decide, plain_listJson rs⟩
  taken := by rw [recommendationsReader_doc, list_reader_listJson]
  careful := fun d hd => (Json.careful_value d hd).bind _

theorem readsBack_wrappedJson (rs : List Recommendation) : ReadsBack recommendationsReader (wrappedJson rs) rs where
  container := trivial
  plain := ⟨3, by decide, .object (by simpa using plain_listJson rs)⟩
  taken := by
    have hlist : Json.list reader (wrappedJson rs).doc = .error (.invalidType .map "a sequence") := rfl
    rw [recommendationsReader_doc, hlist, wrappedRecommendations_wrappedJson]
  careful := fun d hd => (Json.careful_value d hd).bind _

end Recommendation

theorem TransformResponse.readsBack_toJson (r : TransformResponse) (hr : ∀ c ∈ r.appliedChanges, c.InRange) :
    ReadsBack reader r.toJson r where
  container := by
    rw [toJson_eq]
    trivial
  plain := ⟨3, by decide, r.plain_toJson hr⟩
  taken := r.reader_toJson
  careful := careful_reader

/-- What is read of both layouts of a value: bare, they are read as `a`, and so they are in a block, unless three
backticks stand together in a string of the value; then they are malformed in a block. -/
def ReadAs {α : Type} (read : String → Reply α) (v : Value) (a : α) : Prop :=
  ∀ reply ∈ [v.render, v.renderPretty], read reply = .valid a ∧
    (v.Fenceless → read (inBlock reply) = .valid a) ∧
    (¬ v.Fenceless → ∃ reason, read (inBlock reply) = .broken (inBlock reply) reason)

theorem ReadsBack.readAs {α : Type} {r : Reader α} {v : Value} {a : α} (h : ReadsBack r v a) :
    ReadAs (Reply.read r) v a := by
  obtain ⟨n, hn, hplain⟩ := h.plain
  intro reply hreply
  obtain rfl | rfl : reply = v.render ∨ reply = v.renderPretty := by simpa using hreply
  · exact h.bare_and_inBlock hplain.spells_text hn
  · exact h.bare_and_inBlock (hplain.spells_prettyText 0) hn

/-- Replies of transformers and of generators, the latter in both forms, mean the same bare and in a block exactly if
no three backticks stand together in one of their strings. -/
theorem replies_in_blocks (r : TransformResponse) (hr : ∀ c ∈ r.appliedChanges, c.InRange) (rs : List Recommendation) :
    ReadAs readResponse r.toJson r ∧ ReadAs readRecommendations (Recommendation.listJson rs) rs ∧
      ReadAs readRecommendations (Recommendation.wrappedJson rs) rs :=
  ⟨(r.readsBack_toJson hr).readAs, (Recommendation.readsBack_listJson rs).readAs,
    (Recommendation.readsBack_wrappedJson rs).readAs⟩

/-- Backticks around a name in a comment and in a description do no harm. -/
theorem replies_in_blocks_inline_code :
    let r : TransformResponse :=
      ⟨.apply, [⟨"Use \x60call\x60", some 0, some .high⟩], some "// see \x60\x60A\x60\x60\ncontract A {}", []⟩
    let rs : List Recommendation := [fallbackRecommendation "\x60\x60"]
    ((∀ c ∈ r.appliedChanges, c.InRange) ∧ r.toJson.Fenceless ∧ (Recommendation.wrappedJson rs).Fenceless) ∧
      readResponse r.toJson.render = .valid r ∧ readResponse (inBlock r.toJson.render) = .valid r ∧
      readRecommendations (inBlock (Recommendation.wrappedJson rs).renderPretty) = .valid rs := by
  intro r rs
  have hrange : ∀ c ∈ r.appliedChanges, c.InRange := by
    unfold AppliedChange.InRange
    decide
  have hless : r.toJson.Fenceless := by
    unfold Value.Fenceless
    decide +kernel
  have hless' : (Recommendation.wrappedJson rs).Fenceless := by
    unfold Value.Fenceless
    decide +kernel
  obtain ⟨hresponse, -, hwrapped⟩ := replies_in_blocks r hrange rs
  obtain ⟨hbare, hblock, -⟩ := hresponse r.toJson.render (by simp)
  exact ⟨⟨hrange, hless, hless'⟩, hbare, hblock hless, (hwrapped _ (by simp)).2.1 hless'⟩

deriving instance DecidableEq for Reply

/-- A response that quotes a fence in a comment of the code is valid bare and malformed in a block. -/
theorem fenced_comment_malformed :
    let r : TransformResponse := ⟨.apply, [], some "/// \x60\x60\x60\ncontract A {}", []⟩
    readResponse r.toJson.render = .valid r ∧
      readResponse (inBlock r.toJson.render) =
        .malformed (inBlock r.toJson.render) "EOF while parsing a string" := by
  decide +kernel

end ContractMigration
