import ContractMigration.Proofs.Json.Extent

/-! Texts that are one value with white space around it. Where a careful reader takes a text, a value is cut off in front of
white space; and the value of a document is cut off in the same way from the stretch that it takes, by itself. -/

namespace ContractMigration.Json

open Text (Sheltered Edged)

/-- The text is one JSON value with nothing but white space around it: whoever passes over the value meets no fault. -/
def IsDocument (s : String) : Prop := read Doc.skip s = .ok ()

instance (s : String) : Decidable (IsDocument s) :=
  decidable_of_iff ((read Doc.skip s).isOk = true) (by
    unfold IsDocument
    cases read Doc.skip s <;> simp [Except.isOk, Except.toBool])

/-- A text that a careful reader takes is cut off in front of white space. -/
theorem exists_cuts_of_read {α : Type} {r : Reader α} (hr : Careful r) {s : List Char} {a : α}
    (h : read r (String.ofList s) = .ok a) : ∃ d w, Cuts maxDepth (.value d) s w ∧ Space w := by
  obtain ⟨d, o, hparse⟩ : ∃ d o, parseValue maxDepth (2 * s.length + 2) s = (d, o) := ⟨_, _, rfl⟩
  unfold read at h
  obtain ⟨a', ha, h⟩ := bind_eq_ok h
  cases o with
  | none =>
    obtain ⟨e, he⟩ := hr d ((faulty _).value hparse)
    simp [Document.parse, hparse, he] at ha
  | some w =>
    refine ⟨d, w, (sound _).value hparse, List.dropWhile_eq_nil_iff.1 ?_⟩
    by_contra hne
    have htrailing : (Document.parse (String.ofList s)).trailing = true := by
      simpa [Document.parse, hparse, dropSpace] using hne
    rw [htrailing] at h
    cases h

/-- A document between white space: its value takes all the rest, which is cut off in the same way by itself. -/
theorem IsDocument.spread {s : List Char} (h : IsDocument (String.ofList s)) :
    ∃ w t w' d, s = w ++ t ++ w' ∧ Space w ∧ Edged t ∧ Space w' ∧ Sheltered s ∧
      Cuts maxDepth (.value d) s w' ∧ Cuts maxDepth (.value d) t [] := by
  obtain ⟨d, w', hcuts, hw'⟩ := exists_cuts_of_read careful_skip h
  obtain ⟨_, rfl, ⟨w, t, rfl, hw, ht⟩, hsheltered, hagain⟩ := hcuts.extent
  have halone := hagain [] (by simp [Stops])
  rw [List.append_nil] at halone
  exact ⟨w, t, w', d, rfl, hw, ht, hw', hsheltered.append hw'.sheltered, hcuts, halone.of_dropSpace (dropSpace_space hw t)⟩

end ContractMigration.Json
