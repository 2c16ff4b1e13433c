import ContractMigration.Analysis.Basic

/-! What the digest of the sources tells of them. The bytes that are hashed are the UTF-8 text of all paths and texts,
each ended by a zero character, and cutting this text at the zeros gives the pieces back. So two streams are equal
exactly if their pieces are, whatever sources the pieces belong to. Where no path or text holds a zero itself, the
pieces are the paths and texts, and the stream tells the sources. -/

namespace ContractMigration

namespace Digest

theorem utf8_eq_flatMap (s : String) : utf8 s = s.toList.flatMap String.utf8EncodeChar := by
  obtain ⟨l, rfl⟩ := s.exists_eq_ofList
  simp [utf8, String.toUTF8, String.toByteArray_ofList, List.utf8Encode, List.data_toByteArray]

theorem utf8_inj {s t : String} : utf8 s = utf8 t ↔ s = t := by
  simp [utf8, String.toUTF8, Array.toList_inj, ← ByteArray.ext_iff, String.toByteArray_inj]

theorem flatMap_utf8EncodeChar_inj {l m : List Char} :
    l.flatMap String.utf8EncodeChar = m.flatMap String.utf8EncodeChar ↔ l = m := by
  have h := utf8_inj (s := .ofList l) (t := .ofList m)
  simpa [utf8_eq_flatMap, String.ofList_inj] using h

theorem digitChar_inj : ∀ a b : Fin 16, Nat.digitChar a = Nat.digitChar b → a = b := by decide

/-- A byte is told by its two digits. -/
theorem eq_of_hexByte {a b : UInt8} (h : hexByte a = hexByte b) : a = b := by
  have ha := a.toNat_lt
  have hb := b.toNat_lt
  obtain ⟨high, low⟩ : Nat.digitChar (a.toNat / 16) = Nat.digitChar (b.toNat / 16) ∧
      Nat.digitChar (a.toNat % 16) = Nat.digitChar (b.toNat % 16) := by simpa [hexByte] using h
  have hq := digitChar_inj ⟨a.toNat / 16, by omega⟩ ⟨b.toNat / 16, by omega⟩ high
  have hr := digitChar_inj ⟨a.toNat % 16, by omega⟩ ⟨b.toNat % 16, by omega⟩ low
  simp only [Fin.mk.injEq] at hq hr
  apply UInt8.toNat_inj.1
  omega

theorem hex_inj {a b : List UInt8} : hex a = hex b ↔ a = b := by
  simp only [hex, String.ofList_inj]
  refine ⟨fun h => ?_, congrArg _⟩
  induction a generalizing b with
  | nil => cases b with
    | nil => rfl
    | cons y b => simp [hexByte] at h
  | cons x a ih => cases b with
    | nil => simp [hexByte] at h
    | cons y b =>
      obtain ⟨hxy, hab⟩ := List.append_inj (by simpa using h) (by simp [hexByte])
      rw [eq_of_hexByte hxy, ih hab]

end Digest

open Digest

/-- The sources that were fetched, with path and text, in order. -/
def fetched (inputs : List SourceInput) : List (String × String) :=
  inputs.filterMap fun i => i.content.toOption.map (i.path, ·)

/-- A source as it is hashed: path and text, each ended by a zero. -/
def framed (source : String × String) : List Char := source.1.toList ++ '\x00' :: (source.2.toList ++ ['\x00'])

/-- The pieces of the paths and texts of sources, cut at their zeros. -/
def pieces (sources : List (String × String)) : List (List Char) :=
  sources.flatMap fun source => source.1.toList.splitOn '\x00' ++ source.2.toList.splitOn '\x00'

/-- No path and no text holds a zero. -/
def ZeroFree (sources : List (String × String)) : Prop :=
  ∀ source ∈ sources, '\x00' ∉ source.1.toList ∧ '\x00' ∉ source.2.toList

instance (sources : List (String × String)) : Decidable (ZeroFree sources) :=
  inferInstanceAs (Decidable (∀ _ ∈ _, _))

/-- What is hashed is the text of the sources that were fetched. -/
theorem digestStream_eq (inputs : List SourceInput) :
    digestStream inputs = ((fetched inputs).flatMap framed).flatMap String.utf8EncodeChar := by
  have zero : String.utf8EncodeChar '\x00' = [0] := by decide
  induction inputs with
  | nil => rfl
  | cons i inputs ih =>
    simp only [digestStream, fetched] at ih ⊢
    rw [List.flatMap_cons, ih]
    cases hc : i.content with
    | error m => simp [SourceInput.digestBytes, hc, Except.toOption]
    | ok source => simp [SourceInput.digestBytes, hc, Except.toOption, framed, utf8_eq_flatMap, zero]

/-- Cutting the text at its zeros gives the pieces of the sources, and nothing behind the last zero. -/
theorem splitOn_framed (sources : List (String × String)) :
    (sources.flatMap framed).splitOn '\x00' = pieces sources ++ [[]] := by
  induction sources with
  | nil => simp [pieces]
  | cons source sources ih =>
    simp only [pieces] at ih ⊢
    simp [framed, List.splitOn_append_cons_self, ih]

/-- Two streams are equal exactly if their sources fall into the same pieces. -/
theorem digestStream_eq_iff (xs ys : List SourceInput) :
    digestStream xs = digestStream ys ↔ pieces (fetched xs) = pieces (fetched ys) := by
  rw [digestStream_eq, digestStream_eq, flatMap_utf8EncodeChar_inj]
  constructor
  · intro h
    have cut := congrArg (List.splitOn '\x00') h
    rw [splitOn_framed, splitOn_framed] at cut
    exact List.append_cancel_right cut
  · intro h
    have join : ∀ l : List Char, ['\x00'].intercalate (l.splitOn '\x00') = l := fun l => List.intercalate_splitOn '\x00'
    rw [← join ((fetched xs).flatMap framed), ← join ((fetched ys).flatMap framed), splitOn_framed, splitOn_framed, h]

/-- Where there is no zero, the pieces are the paths and texts. -/
theorem pieces_of_zeroFree {sources : List (String × String)} (h : ZeroFree sources) :
    pieces sources = sources.flatMap fun source => [source.1.toList, source.2.toList] := by
  simp only [pieces, List.flatMap_def]
  congr 1
  apply List.map_congr_left
  intro source hs
  rw [List.splitOn_eq_singleton (h source hs).1, List.splitOn_eq_singleton (h source hs).2]
  rfl

theorem pieces_inj {xs ys : List (String × String)} (hx : ZeroFree xs) (hy : ZeroFree ys) :
    pieces xs = pieces ys ↔ xs = ys := by
  refine ⟨fun h => ?_, congrArg _⟩
  rw [pieces_of_zeroFree hx, pieces_of_zeroFree hy] at h
  clear hx hy
  induction xs generalizing ys with
  | nil => cases ys with
    | nil => rfl
    | cons y ys => simp at h
  | cons x xs ih => cases ys with
    | nil => simp at h
    | cons y ys =>
      simp only [List.flatMap_cons, List.cons_append, List.nil_append, List.cons.injEq, String.toList_inj] at h
      obtain ⟨path, text, rest⟩ := h
      rw [ih rest, Prod.ext path text]

/-- Two lists of sources without zeros have the same stream exactly if the same sources were fetched, in the same
order, and unless SHA-256 takes their streams to one value, so do two analyses that share their digest. -/
theorem same_sources_of_digest {xs ys : List SourceInput} (hx : ZeroFree (fetched xs)) (hy : ZeroFree (fetched ys))
    (hs : sha256 (digestStream xs) = sha256 (digestStream ys) → digestStream xs = digestStream ys)
    (k k' : Key) (n n' : Nat) (o o' : AnalysisOptions) (c c' : Clocked) :
    (digestStream xs = digestStream ys ↔ fetched xs = fetched ys) ∧
    ((analyze k n xs o c).sourceDigest = (analyze k' n' ys o' c').sourceDigest ↔ fetched xs = fetched ys) := by
  have streams : digestStream xs = digestStream ys ↔ fetched xs = fetched ys :=
    (digestStream_eq_iff xs ys).trans (pieces_inj hx hy)
  refine ⟨streams, ?_⟩
  rw [← streams]
  change hex (sha256 (digestStream xs)) = hex (sha256 (digestStream ys)) ↔ _
  rw [hex_inj]
  exact ⟨hs, congrArg sha256⟩

/-- Two versions of one file, analysed under the same bounds and at the same time, have different digests. -/
theorem same_sources_of_digest_versions :
    (analyze ⟨"acme", "vaults"⟩ 1 [⟨"a.sol", .ok "contract A {}"⟩] ⟨4, 1000⟩ ⟨⟨0, 0⟩, 0⟩).sourceDigest ≠
      (analyze ⟨"acme", "vaults"⟩ 1 [⟨"a.sol", .ok "contract B {}"⟩] ⟨4, 1000⟩ ⟨⟨0, 0⟩, 0⟩).sourceDigest := by
  rw [Ne, (same_sources_of_digest (by decide) (by decide) (by decide +kernel) _ _ 1 1 _ _ _ _).2]
  decide

/-- A zero in a text makes one source look like two. -/
theorem digestStream_zero_ambiguous :
    digestStream [⟨"a.sol", .ok "contract A {} //\x00c.sol\x00contract C {}"⟩] =
      digestStream [⟨"a.sol", .ok "contract A {} //"⟩, ⟨"c.sol", .ok "contract C {}"⟩] ∧
    fetched [⟨"a.sol", .ok "contract A {} //\x00c.sol\x00contract C {}"⟩] ≠
      fetched [⟨"a.sol", .ok "contract A {} //"⟩, ⟨"c.sol", .ok "contract C {}"⟩] := by
  decide +kernel

end ContractMigration
