import ContractMigration.Proofs.Json.Documents
import ContractMigration.Proofs.Plan.Replies

/-! Replies without a block. A text that is one JSON value has no block in it, whatever stands in its strings, so a reply
that consists of such a text and white space is read as that text. -/

namespace ContractMigration

open Json (Reader Document Space)
open Text (Sheltered Edged isBlank)

/-- The text is white space. -/
def Text.Blank (s : List Char) : Prop := ∀ c ∈ s, isBlank c = true

theorem Json.Space.blank {w : List Char} (hw : Space w) : Text.Blank w := fun c hc => isBlank_of_isSpace (hw c hc)

theorem Text.Blank.append {w w' : List Char} (hw : Blank w) (hw' : Blank w') : Blank (w ++ w') := by
  intro c hc
  obtain hc | hc := List.mem_append.1 hc
  · exact hw c hc
  · exact hw' c hc

theorem Text.Blank.sheltered {w : List Char} (hw : Blank w) : Sheltered w :=
  (Json.Strung.of_plain fun c hc => by
    rintro rfl
    exact absurd (hw _ hc) (by decide)).sheltered

theorem Text.Edged.trimChars_between {w t w' : List Char} (hw : Blank w) (ht : Edged t) (hw' : Blank w') :
    trimChars (w ++ t ++ w') = t := by
  have hdrop : dropBlank (w ++ t ++ w') = dropBlank (t ++ w') := by
    rw [List.append_assoc]
    exact List.dropWhile_append_of_pos hw
  have htrim := ht.trimChars_append hw'
  rwa [trimChars, ← hdrop] at htrim

namespace Reply

/-- White space around a document and in front of its value and behind it is all that trimming takes away. -/
theorem content_document {w s w' : List Char} (hw : Text.Blank w) (hs : Json.IsDocument (String.ofList s))
    (hw' : Text.Blank w') : Text.unfenced (w ++ s ++ w') = Text.trimChars s ∧ Text.trimChars s ≠ [] ∧
      ∀ {α : Type} (r : Reader α), Json.read r (String.ofList (Text.trimChars s)) = Json.read r (String.ofList s) := by
  obtain ⟨v, t, v', d, rfl, hv, ht, hv', hsheltered, hcuts, halone⟩ := hs.spread
  have htrim : Text.trimChars (v ++ t ++ v') = t := ht.trimChars_between hv.blank hv'.blank
  have hfence : Text.firstBlock? (w ++ (v ++ t ++ v') ++ w') = none :=
    Text.firstBlock?_eq_none ((hw.sheltered.append hsheltered).append hw'.sheltered)
  have hends := ht.trimChars_between (hw.append hv.blank) (hv'.blank.append hw')
  refine ⟨?_, by rw [htrim]; exact ht.ne_nil, fun r => ?_⟩
  · rw [htrim, Text.unfenced, hfence]
    simpa using hends
  · rw [htrim, Json.read, Json.read, Document.parse_of_cuts halone, Json.Document.parse_of_cuts_space hcuts hv']

end Reply

/-- A reply that is a document between any white space is read as the document: no block is taken out of it, whatever
stands in its strings, and each reader says of the reply what it says of the document. -/
theorem document_replies {before document after : String} (hdocument : Json.IsDocument document)
    (hbefore : Text.Blank before.toList) (hafter : Text.Blank after.toList) :
    Reply.content (before ++ document ++ after) = Text.trim document ∧
      ∀ {α : Type} (r : Reader α), Json.read r (Text.trim document) = Json.read r document ∧
        Reply.read r (before ++ document ++ after) = match Json.read r document with
          | .ok a => .valid a
          | .error e => .broken (before ++ document ++ after) e.message := by
  rw [← String.ofList_toList (s := document)] at hdocument
  obtain ⟨hcontent, hne, hread⟩ := Reply.content_document hbefore hdocument hafter
  rw [← String.toList_append, ← String.toList_append] at hcontent
  refine ⟨by rw [Reply.content, hcontent, Text.trim], fun r => ⟨?_, ?_⟩⟩
  · rw [Text.trim, hread, String.ofList_toList]
  · have hresult := ReadsBack.read_of_content (r := r) hcontent hne
    rw [hread, String.ofList_toList] at hresult
    exact hresult

/-- A response whose code holds a block of its own, between a no-break space and line breaks. -/
theorem document_replies_block_in_code :
    let document := " \x7b\"action\": \"apply\", \"transformed_code\": \"\x60\x60\x60json\\n{}\\n\x60\x60\x60\"\x7d\n"
    let reply := "\u00a0\n" ++ document ++ "\u3000"
    Json.IsDocument document ∧ Text.Blank "\u00a0\n".toList ∧ Text.Blank "\u3000".toList ∧
      Reply.content reply = Text.trim document ∧
      readResponse reply = .valid ⟨.apply, [], some "\x60\x60\x60json\n{}\n\x60\x60\x60", []⟩ := by
  intro document reply
  have hdocument : Json.IsDocument document := by decide +kernel
  have hbefore : Text.Blank "\u00a0\n".toList := List.all_eq_true.mp (by decide)
  have hafter : Text.Blank "\u3000".toList := List.all_eq_true.mp (by decide)
  obtain ⟨hcontent, hread⟩ := document_replies hdocument hbefore hafter
  refine ⟨hdocument, hbefore, hafter, hcontent, ?_⟩
  rw [readResponse, (hread TransformResponse.reader).2]
  decide +kernel

end ContractMigration
