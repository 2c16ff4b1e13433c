import ContractMigration.Proofs.Solidity.Names
import ContractMigration.Proofs.Text.Cuts
import Mathlib.Order.Nat

/-! The path of an import is what stands between two quotes. The first of them is the first quote in the directive that has
a partner, that is, the same quote somewhere behind it; the second one is the nearest such partner. Quotes without a partner
are passed over, and quotes of the other kind may stand in the path. -/

namespace ContractMigration.Solidity

variable {c q : Char} {r s body : List Char} {i j n : ℕ}

/-! ### Quotes with a partner -/

/-- A quote stands at this place of a text, and the same one stands at a later place. -/
def Partnered (s : List Char) (i : ℕ) : Prop :=
  ∃ q, (q = '"' ∨ q = '\'') ∧ s[i]? = some q ∧ ∃ j, i < j ∧ s[j]? = some q

/-- What stands between a character at one place of a text and its next occurrence, at another place. -/
structure Between (s : List Char) (q : Char) (i j : ℕ) (body : List Char) : Prop where
  opens : s[i]? = some q
  closes : s[j]? = some q
  later : i < j
  nearest : ∀ l, i < l → l < j → s[l]? ≠ some q
  text : body = (s.take j).drop (i + 1)

theorem isQuote_iff : isQuote c = true ↔ c = '"' ∨ c = '\'' := by
  simp [isQuote]

theorem partnered_cons_zero : Partnered (c :: r) 0 ↔ isQuote c = true ∧ c ∈ r := by
  rw [isQuote_iff, List.mem_iff_getElem?]
  constructor
  · rintro ⟨q, hq, hc, j, hj, hjq⟩
    obtain rfl := Option.some.inj hc
    obtain ⟨j, rfl⟩ := Nat.exists_eq_add_of_lt hj
    exact ⟨hq, _, by simpa using hjq⟩
  · rintro ⟨hc, j, hj⟩
    exact ⟨c, hc, rfl, j + 1, Nat.succ_pos j, by simpa using hj⟩

theorem partnered_cons_succ : Partnered (c :: r) (i + 1) ↔ Partnered r i := by
  refine exists_congr fun q => and_congr_right fun _ => and_congr (by simp) ⟨?_, ?_⟩
  · rintro ⟨j, hj, hjq⟩
    obtain ⟨j, rfl⟩ := Nat.exists_eq_add_of_lt hj
    exact ⟨i + 1 + j, by omega, by simpa using hjq⟩
  · rintro ⟨j, hj, hjq⟩
    exact ⟨j + 1, by omega, by simpa using hjq⟩

/-- Whether a place has a partner can be seen from what stands there and behind. -/
theorem partnered_iff :
    Partnered s i ↔ (s.drop i).head?.any (fun c => isQuote c && (s.drop i).tail.contains c) = true := by
  induction i generalizing s with
  | zero =>
    cases s with
    | nil => simp [Partnered]
    | cons c r => simp [partnered_cons_zero]
  | succ i ih =>
    cases s with
    | nil => simp [Partnered]
    | cons c r => rw [partnered_cons_succ, ih, List.drop_succ_cons]

instance (s : List Char) (i : ℕ) : Decidable (Partnered s i) := decidable_of_iff _ partnered_iff.symm

/-- A quote with a partner has a nearest one. -/
theorem Partnered.exists_between (h : Partnered s i) : ∃ q j body, (q = '"' ∨ q = '\'') ∧ Between s q i j body := by
  obtain ⟨q, hq, hi, hlater⟩ := h
  obtain ⟨hlt, hj⟩ := Nat.find_spec hlater
  exact ⟨q, _, _, hq, hi, hj, hlt, fun l hil hl hlq => Nat.find_min hlater hl ⟨hil, hlq⟩, rfl⟩

/-- What stands between is followed by the second character, which does not occur in it. -/
theorem Between.exists_drop (h : Between s q i j body) : ∃ post, s.drop i = q :: (body ++ q :: post) ∧ q ∉ body := by
  obtain ⟨hi, hiq⟩ := List.getElem?_eq_some_iff.mp h.opens
  obtain ⟨hj, hjq⟩ := List.getElem?_eq_some_iff.mp h.closes
  have hbody := h.text
  have hsplit : s.drop (i + 1) = body ++ s.drop j := by
    have hlength : i + 1 ≤ (s.take j).length := by rw [List.length_take_of_le hj.le]; exact h.later
    rw [hbody, ← List.drop_append_of_le_length hlength, List.take_append_drop]
  refine ⟨s.drop (j + 1), ?_, fun hmem => ?_⟩
  · rw [List.drop_eq_getElem_cons hi, hiq, hsplit, List.drop_eq_getElem_cons hj, hjq]
  · -- an occurrence in the body would be nearer
    obtain ⟨l, hl⟩ := List.mem_iff_getElem?.mp hmem
    rw [hbody, List.getElem?_drop, List.getElem?_take] at hl
    split_ifs at hl with hlt
    exact h.nearest (i + 1 + l) (by omega) hlt hl

/-! ### Paths -/

/-- A quote without a partner is passed over, and so is everything else. -/
theorem importPathChars?_of_not_partnered (h : ¬Partnered (c :: r) 0) : importPathChars? (c :: r) = importPathChars? r := by
  rw [importPathChars?_cons]
  split_ifs with hc
  · rcases hcut : Text.cutAt? c r with _ | ⟨a, b⟩
    · rfl
    · obtain ⟨rfl, -⟩ := Text.cutAt?_eq_some_iff.mp hcut
      exact absurd (partnered_cons_zero.mpr ⟨hc, by simp⟩) h
  · rfl

theorem importPathChars?_drop (h : ∀ i < n, ¬Partnered s i) : importPathChars? (s.drop n) = importPathChars? s := by
  induction n generalizing s with
  | zero => rfl
  | succ n ih =>
    cases s with
    | nil => rfl
    | cons c r =>
      have hrest : ∀ i < n, ¬Partnered r i := fun i hi => partnered_cons_succ.not.mp (h (i + 1) (Nat.succ_lt_succ hi))
      rw [List.drop_succ_cons, ih hrest, importPathChars?_of_not_partnered (h 0 n.succ_pos)]

theorem importPathChars?_between (hq : isQuote q = true) (hbody : q ∉ body) (post : List Char) :
    importPathChars? (q :: (body ++ q :: post)) = some body := by
  rw [importPathChars?_cons, if_pos hq, Text.cutAt?_eq_some_iff.mpr ⟨rfl, hbody⟩]
  rfl

/-- The quotation that begins with the first quote that has a partner is the path. -/
theorem importPathChars?_of_between (hq : q = '"' ∨ q = '\'') (h : Between s q i j body)
    (hfirst : ∀ i' < i, ¬Partnered s i') : importPathChars? s = some body := by
  obtain ⟨post, hdrop, hbody⟩ := h.exists_drop
  rw [← importPathChars?_drop hfirst, hdrop, importPathChars?_between (isQuote_iff.mpr hq) hbody]

theorem importPathChars?_eq_none_iff : importPathChars? s = none ↔ ∀ i, ¬Partnered s i := by
  constructor
  · intro hnone i hi
    obtain ⟨q, j, body, hq, hbetween⟩ := (Nat.find_spec ⟨i, hi⟩ : Partnered s _).exists_between
    rw [importPathChars?_of_between hq hbetween fun i' hi' => Nat.find_min ⟨i, hi⟩ hi'] at hnone
    cases hnone
  · intro h
    rw [← importPathChars?_drop (n := s.length) fun i _ => h i, List.drop_length]
    rfl

theorem importPathChars?_eq_some_iff : importPathChars? s = some body ↔
    ∃ q i j, (q = '"' ∨ q = '\'') ∧ Between s q i j body ∧ ∀ i' < i, ¬Partnered s i' := by
  constructor
  · intro hsome
    have hex : ∃ i, Partnered s i := by
      by_contra hnone
      rw [importPathChars?_eq_none_iff.mpr (not_exists.mp hnone)] at hsome
      cases hsome
    obtain ⟨q, j, body', hq, hbetween⟩ := (Nat.find_spec hex).exists_between
    have hfirst : ∀ i' < Nat.find hex, ¬Partnered s i' := fun i' hi' => Nat.find_min hex hi'
    obtain rfl := Option.some.inj ((importPathChars?_of_between hq hbetween hfirst).symm.trans hsome)
    exact ⟨q, _, j, hq, hbetween, hfirst⟩
  · rintro ⟨q, i, j, hq, hbetween, hfirst⟩
    exact importPathChars?_of_between hq hbetween hfirst

/-- A directive has a path just when a quote in it has a partner, and then the path is the text strictly between the first
such quote and its next occurrence. What has no quote with a partner in it is passed over, and what is quoted behind a text
without quotes is the path, whatever else stands in it. -/
theorem importPath?_quotation (directive : String) :
    (∀ path, importPath? directive = some path ↔ ∃ q i j, (q = '"' ∨ q = '\'') ∧
      Between directive.toList q i j path.toList ∧ ∀ i' < i, ¬Partnered directive.toList i') ∧
    (importPath? directive = none ↔ ∀ i, ¬Partnered directive.toList i) ∧
    (∀ pre rest, directive = pre ++ rest → (∀ i < pre.length, ¬Partnered directive.toList i) →
      importPath? directive = importPath? rest) ∧
    ∀ pre q path post, directive = pre ++ String.singleton q ++ path ++ String.singleton q ++ post →
      (q = '"' ∨ q = '\'') → '"' ∉ pre.toList → '\'' ∉ pre.toList → q ∉ path.toList → importPath? directive = some path := by
  refine ⟨fun path => ?path, ?none, fun pre rest hsplit hpassed => ?passed,
    fun pre q path post hsplit hq hd hs hpath => ?quoted⟩
  case path =>
    rw [← importPathChars?_eq_some_iff, importPath?, Option.map_eq_some_iff]
    exact ⟨fun ⟨body, hbody, hpath⟩ => by rw [hbody, ← hpath, String.toList_ofList],
      fun h => ⟨path.toList, h, String.ofList_toList⟩⟩
  case none => rw [← importPathChars?_eq_none_iff, importPath?, Option.map_eq_none_iff]
  case passed =>
    rw [importPath?, importPath?, ← importPathChars?_drop hpassed, hsplit, String.toList_append, ← String.length_toList,
      List.drop_left]
  case quoted =>
    have hplain : ∀ c ∈ pre.toList, isQuote c = false := by
      intro c hc
      simpa [isQuote] using ⟨ne_of_mem_of_not_mem hc hd, ne_of_mem_of_not_mem hc hs⟩
    have hchars : directive.toList = pre.toList ++ q :: (path.toList ++ q :: post.toList) := by simp [hsplit]
    rw [importPath?, hchars, importPathChars?_append hplain, importPathChars?_between (isQuote_iff.mpr hq) hpath,
      Option.map_some, String.ofList_toList]

/-- The apostrophe in a comment has no partner, so it is passed over. -/
theorem importPath?_quotation_apostrophe :
    let directive := "import /* don't */ \"./A.sol\";"
    (∀ i < "import /* don't".length, ¬Partnered directive.toList i) ∧ importPath? directive = some "./A.sol" := by
  intro directive
  have hpassed : ∀ i < "import /* don't".length, ¬Partnered directive.toList i := by decide +kernel
  refine ⟨hpassed, ?_⟩
  rw [(importPath?_quotation directive).2.2.1 "import /* don't" " */ \"./A.sol\";" (by decide +kernel) hpassed]
  exact (importPath?_quotation " */ \"./A.sol\";").2.2.2 " */ " '"' "./A.sol" ";" (by decide +kernel) (.inl rfl)
    (by decide +kernel) (by decide +kernel) (by decide +kernel)

end ContractMigration.Solidity
