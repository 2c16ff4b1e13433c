import ContractMigration.Config
import ContractMigration.Proofs.Json.Members
import ContractMigration.Proofs.Text.Blocks

/-! The settings that take effect. Each number among them comes from a variable of the environment, else from the file,
else from the defaults, and is moved between its limits in the end; that it was moved between them before makes no
difference. A number in the environment is a text with decimal digits in it and not much else, and the first variable that
holds something else is the one that is complained about. -/

namespace ContractMigration.Config

/-! ### Numbers as texts -/

/-- The decimal digits of a number, with zeros in front. -/
def numeral (zeros n : ℕ) : List Char := List.replicate zeros '0' ++ Nat.toDigits 10 n

/-- A text that writes a number: decimal digits, perhaps behind a plus sign, with white space around them. -/
def Written (raw : String) (n : ℕ) : Prop :=
  ∃ front sign zeros back, raw.toList = front ++ (sign ++ numeral zeros n) ++ back ∧
    (∀ c ∈ front, Text.isBlank c = true) ∧ (∀ c ∈ back, Text.isBlank c = true) ∧ (sign = [] ∨ sign = ['+'])

/-- A text that writes a number of sixty-four bits. -/
def Readable (raw : String) : Prop := ∃ n < Nat.pow 2 64, Written raw n

theorem digitChar_sub {c : Char} (h : c.isDigit = true) : Nat.digitChar (c.toNat - 48) = c ∧ c.toNat - 48 < 10 := by
  have hrange : 48 ≤ c.toNat ∧ c.toNat ≤ 57 := by simpa [Char.isDigit, Char.le_def, UInt32.le_iff_toNat_le] using h
  refine ⟨Char.toNat_inj.mp ?_, by omega⟩
  rw [Nat.toNat_digitChar_of_lt_ten (by omega)]
  omega

theorem isDigit_of_mem_numeral {zeros n : ℕ} : ∀ c ∈ numeral zeros n, c.isDigit = true := by
  intro c hc
  rcases List.mem_append.mp hc with hc | hc
  · rw [List.eq_of_mem_replicate hc]
    rfl
  · exact Nat.isDigit_of_mem_toDigits (by decide) (by decide) hc

theorem ofDigitChars_numeral (zeros n : ℕ) : Nat.ofDigitChars 10 (numeral zeros n) 0 = n := by
  rw [numeral, Nat.ofDigitChars_append, Nat.ofDigitChars_replicate_zero, Nat.mul_zero, Nat.ofDigitChars_ten_toDigits]

/-- Digits are those of their value, with zeros in front. -/
theorem exists_numeral {ds : List Char} (hne : ds ≠ []) (hds : ∀ c ∈ ds, c.isDigit = true) :
    ∃ zeros, ds = numeral zeros (Nat.ofDigitChars 10 ds 0) := by
  simp only [numeral]
  induction ds using List.reverseRecOn with
  | nil => exact absurd rfl hne
  | append_singleton ds c ih =>
    obtain ⟨hdigit, hlt⟩ := digitChar_sub (hds c (List.mem_append_right _ (List.mem_singleton.mpr rfl)))
    have hone : Nat.toDigits 10 (c.toNat - 48) = [c] := by rw [Nat.toDigits_of_lt_base hlt, hdigit]
    have hvalue : Nat.ofDigitChars 10 (ds ++ [c]) 0 = 10 * Nat.ofDigitChars 10 ds 0 + (c.toNat - 48) := by
      rw [Nat.ofDigitChars_append, Nat.ofDigitChars_cons, Nat.ofDigitChars_nil]
      rfl
    rw [hvalue]
    rcases eq_or_ne ds [] with rfl | hds'
    · exact ⟨0, by simpa using hone.symm⟩
    · obtain ⟨zeros, hzeros⟩ := ih hds' fun d hd => hds d (List.mem_append_left _ hd)
      rcases Nat.eq_zero_or_pos (Nat.ofDigitChars 10 ds 0) with hzero | hpos
      · -- all digits so far are zeros, and the shortest digits of the whole are the last one
        refine ⟨zeros + 1, ?_⟩
        rw [hzero, Nat.toDigits_zero] at hzeros
        rw [hzero, Nat.mul_zero, Nat.zero_add, hone, hzeros, List.replicate_succ']
      · refine ⟨zeros, ?_⟩
        rw [← Nat.toDigits_append_toDigits (by decide) hpos hlt, hone, ← List.append_assoc, ← hzeros]

/-- A text without a plus sign in front. -/
def unsigned : List Char → List Char
  | '+' :: r => r
  | s => s

theorem unsigned_eq_iff {s ds : List Char} (hds : ∀ c ∈ ds, c.isDigit = true) :
    unsigned s = ds ↔ ∃ sign, s = sign ++ ds ∧ (sign = [] ∨ sign = ['+']) := by
  constructor
  · rintro rfl
    unfold unsigned
    split
    · exact ⟨['+'], rfl, .inr rfl⟩
    · exact ⟨[], rfl, .inl rfl⟩
  · rintro ⟨sign, rfl, rfl | rfl⟩
    · unfold unsigned
      split
      · next r hr => exact absurd (hds '+' (by rw [← List.nil_append ds, hr]; exact List.mem_cons_self)) (by decide)
      · rfl
    · rfl

theorem number?_eq_some_iff_unsigned {raw : String} {n : ℕ} : number? raw = some n ↔
    unsigned (Text.trimChars raw.toList) ≠ [] ∧ (∀ c ∈ unsigned (Text.trimChars raw.toList), c.isDigit = true) ∧
      Nat.ofDigitChars 10 (unsigned (Text.trimChars raw.toList)) 0 = n ∧ n < Nat.pow 2 64 := by
  have hnumber : number? raw = (if (unsigned (Text.trimChars raw.toList)).isEmpty ||
        !(unsigned (Text.trimChars raw.toList)).all Char.isDigit then none
      else if (unsigned (Text.trimChars raw.toList)).foldl (fun a c => a * 10 + (c.toNat - 48)) 0 < Nat.pow 2 64 then
        some ((unsigned (Text.trimChars raw.toList)).foldl (fun a c => a * 10 + (c.toNat - 48)) 0)
      else none) := rfl
  have hvalue : ∀ ds : List Char, ds.foldl (fun a c => a * 10 + (c.toNat - 48)) 0 = Nat.ofDigitChars 10 ds 0 := by
    intro ds
    rw [Nat.ofDigitChars_eq_foldl]
    simp only [Nat.mul_comm]
    rfl
  rw [hnumber, hvalue]
  generalize unsigned (Text.trimChars raw.toList) = ds
  have hread : (ds.isEmpty || !ds.all Char.isDigit) = false ↔ ds ≠ [] ∧ ∀ c ∈ ds, c.isDigit = true := by simp
  rw [← and_assoc, ← hread]
  cases ds.isEmpty || !ds.all Char.isDigit with
  | true => exact ⟨nofun, nofun⟩
  | false =>
    rw [if_neg Bool.false_ne_true]
    split_ifs with hlt
    · exact ⟨fun h => ⟨rfl, Option.some.inj h, Option.some.inj h ▸ hlt⟩, fun h => congrArg some h.2.1⟩
    · exact ⟨nofun, fun h => absurd (h.2.1 ▸ h.2.2) hlt⟩

/-- White space and the sign are taken off, and the digits are left. -/
theorem Written.exists_unsigned {raw : String} {n : ℕ} (h : Written raw n) :
    ∃ zeros, unsigned (Text.trimChars raw.toList) = numeral zeros n := by
  obtain ⟨front, sign, zeros, back, hraw, hfront, hback, hsign⟩ := h
  have hsolid : ∀ c ∈ sign ++ numeral zeros n, Text.isBlank c = false := by
    intro c hc
    rcases List.mem_append.mp hc with hc | hc
    · rcases hsign with rfl | rfl
      · cases hc
      · rw [List.mem_singleton.mp hc]
        rfl
    · exact Text.isBlank_of_isAlphanum (by simp [Char.isAlphanum, isDigit_of_mem_numeral c hc])
  have htrim : Text.trimChars raw.toList = sign ++ numeral zeros n := by
    rw [hraw]
    exact Text.trimWhere_append hfront hback (fun c hc => hsolid c (List.mem_of_mem_head? hc))
      fun c hc => hsolid c (List.mem_of_getLast? hc)
  exact ⟨zeros, (unsigned_eq_iff isDigit_of_mem_numeral).mpr ⟨sign, htrim, hsign⟩⟩

theorem number?_eq_some_iff {raw : String} {n : ℕ} : number? raw = some n ↔ Written raw n ∧ n < Nat.pow 2 64 := by
  rw [number?_eq_some_iff_unsigned]
  constructor
  · rintro ⟨hne, hdigits, hvalue, hlt⟩
    obtain ⟨sign, htrim, hsign⟩ := (unsigned_eq_iff hdigits).mp rfl
    obtain ⟨zeros, hzeros⟩ := exists_numeral hne hdigits
    obtain ⟨front, back, hraw, hfront, hback⟩ := Text.exists_trimmed Text.isBlank raw.toList
    refine ⟨⟨front, sign, zeros, back, ?_, hfront, hback, hsign⟩, hlt⟩
    rw [← hvalue, ← hzeros, ← htrim]
    exact hraw
  · rintro ⟨hwritten, hlt⟩
    obtain ⟨zeros, hunsigned⟩ := hwritten.exists_unsigned
    rw [hunsigned, ofDigitChars_numeral]
    exact ⟨List.append_ne_nil_of_right_ne_nil _ Nat.toDigits_ne_nil, isDigit_of_mem_numeral, rfl, hlt⟩

theorem number?_eq_none_iff {raw : String} : number? raw = none ↔ ¬Readable raw := by
  simp [Option.eq_none_iff_forall_ne_some, number?_eq_some_iff, Readable, and_comm]

/-! ### The numbers among the settings -/

/-- A number among the settings: its name in a file, the variable of the environment that overrides it, if there is one,
where it stands, and its limits. -/
structure Number where
  key : String
  variableName : Option String
  get : Config → ℕ
  set : ℕ → Config → Config
  low : ℕ
  high : ℕ

/-- All numbers among the settings, in the order in which their variables are looked at. -/
def numbers : List Number :=
  [⟨"cache_ttl_secs", some "SOLMIG_CACHE_TTL_SECS", cacheTtlSeconds, fun n c => { c with cacheTtlSeconds := n },
      Limits.minTtlSeconds, Limits.maxTtlSeconds⟩,
    ⟨"max_repositories", some "SOLMIG_MAX_REPOSITORIES", maxRepositories, fun n c => { c with maxRepositories := n },
      1, Limits.maxRepositories⟩,
    ⟨"analysis_workers", some "SOLMIG_ANALYSIS_WORKERS", analysisWorkers, fun n c => { c with analysisWorkers := n },
      1, Limits.maxAnalysisWorkers⟩,
    ⟨"fetch_concurrency", some "SOLMIG_FETCH_CONCURRENCY", fetchConcurrency, fun n c => { c with fetchConcurrency := n },
      1, Limits.maxFetches⟩,
    ⟨"transform_concurrency", some "SOLMIG_TRANSFORM_CONCURRENCY", transformConcurrency,
      fun n c => { c with transformConcurrency := n }, 1, Limits.maxTransforms⟩,
    ⟨"max_source_bytes", none, maxSourceBytes, fun n c => { c with maxSourceBytes := n },
      Limits.minSourceBytes, Limits.maxSourceBytes⟩]

/-- What is shown of the settings begins with these numbers, and nothing else in it is a number. -/
theorem toJson_eq (c : Config) : c.toJson = .object (numbers.map (fun x => (x.key, .nat (x.get c))) ++
    [("exclude_sensitive", .bool c.excludeSensitive), ("exclude_dirs", Json.strings c.excludeDirs),
      ("external_import_prefixes", Json.strings c.importPrefixes),
      ("external_parent_names", Json.strings c.parentNames)]) := rfl

namespace Number

/-- Its variable is not set, or it has none. -/
def Unset (env : String → Option String) (x : Number) : Prop := ∀ name, x.variableName = some name → env name = none

/-- Its variable is set to the number `n`. -/
def SetTo (env : String → Option String) (x : Number) (n : ℕ) : Prop :=
  ∃ name raw, x.variableName = some name ∧ env name = some raw ∧ Written raw n ∧ n < Nat.pow 2 64

/-- Its variable is set to something else, which is the failure `e`. -/
def Faulty (env : String → Option String) (x : Number) (e : Failure) : Prop :=
  ∃ name raw, x.variableName = some name ∧ env name = some raw ∧ ¬Readable raw ∧
    e = .config (name ++ " must be a non-negative integer, got " ++ Text.quoted raw)

/-- Overrides a number by its variable, if it has one. -/
def override (env : String → Option String) (c : Config) (x : Number) : Except Failure Config :=
  match x.variableName with
  | none => .ok c
  | some name => overrideNumber env name x.set c

/-- What becomes of a number depends on the environment only. -/
theorem override_cases (env : String → Option String) (x : Number) :
    (x.Unset env ∧ ∀ c, override env c x = .ok c) ∨ (∃ n, x.SetTo env n ∧ ∀ c, override env c x = .ok (x.set n c)) ∨
      ∃ e, x.Faulty env e ∧ ∀ c, override env c x = .error e := by
  rcases hname : x.variableName with _ | name
  · exact .inl ⟨by simp [Unset, hname], fun c => by simp [override, hname]⟩
  · rcases hset : env name with _ | raw
    · exact .inl ⟨by simpa [Unset, hname] using hset, fun c => by simp [override, hname, overrideNumber, hset]⟩
    · rcases hread : number? raw with _ | n
      · exact .inr (.inr ⟨_, ⟨name, raw, hname, hset, number?_eq_none_iff.mp hread, rfl⟩,
          fun c => by simp [override, hname, overrideNumber, hset, hread]⟩)
      · obtain ⟨hwritten, hlt⟩ := number?_eq_some_iff.mp hread
        exact .inr (.inl ⟨n, ⟨name, raw, hname, hset, hwritten, hlt⟩,
          fun c => by simp [override, hname, overrideNumber, hset, hread]⟩)

theorem Faulty.not_fine {env : String → Option String} {x : Number} {e : Failure} (h : x.Faulty env e) :
    ¬(x.Unset env ∨ ∃ n, x.SetTo env n) := by
  obtain ⟨name, raw, hname, hset, hunreadable, -⟩ := h
  rintro (hunset | ⟨n, name', raw', hname', hset', hwritten, hlt⟩)
  · rw [hunset name hname] at hset
    cases hset
  · obtain rfl := Option.some.inj (hname.symm.trans hname')
    obtain rfl := Option.some.inj (hset.symm.trans hset')
    exact hunreadable ⟨n, hlt, hwritten⟩

theorem Faulty.eq {env : String → Option String} {x : Number} {e e' : Failure} (h : x.Faulty env e)
    (h' : x.Faulty env e') : e = e' := by
  obtain ⟨name, raw, hname, hset, -, rfl⟩ := h
  obtain ⟨name', raw', hname', hset', -, rfl⟩ := h'
  obtain rfl := Option.some.inj (hname.symm.trans hname')
  rw [Option.some.inj (hset.symm.trans hset')]

/-- Setting one number and reading another one do not get into each other's way. -/
def Apart (x y : Number) : Prop := ∀ n c, y.get (x.set n c) = y.get c ∧ x.get (y.set n c) = x.get c

theorem Apart.symm {x y : Number} (h : Apart x y) : Apart y x := fun n c => (h n c).symm

end Number

open Number

theorem numbers_apart : numbers.Pairwise Apart := by
  simp [numbers, Apart]

theorem get_set {x : Number} (hx : x ∈ numbers) (n : ℕ) (c : Config) : x.get (x.set n c) = n := by
  revert x
  simp [numbers]

theorem low_le_high {x : Number} (hx : x ∈ numbers) : 0 < x.low ∧ x.low ≤ x.high := by
  revert x
  decide

/-! ### Limits -/

theorem clampNat_bounds {low high : ℕ} (h : low ≤ high) (n : ℕ) :
    low ≤ Limits.clampNat n low high ∧ Limits.clampNat n low high ≤ high := by
  rw [Limits.clampNat]
  omega

theorem get_clamped {x : Number} (hx : x ∈ numbers) (c : Config) :
    x.get c.clamped = Limits.clampNat (x.get c) x.low x.high := by
  revert x
  simp [numbers, clamped, Limits.ttlSeconds, Limits.workers]

theorem clamped_set {x : Number} (hx : x ∈ numbers) (n : ℕ) (c : Config) :
    (x.set n c).clamped = x.set (Limits.clampNat n x.low x.high) c.clamped := by
  revert x
  simp [numbers, clamped, Limits.ttlSeconds, Limits.workers]

theorem clampNat_clampNat (n low high : ℕ) :
    Limits.clampNat (Limits.clampNat n low high) low high = Limits.clampNat n low high := by
  simp only [Limits.clampNat]
  omega

/-- Whatever is between the limits stays there. -/
theorem clamped_clamped (c : Config) : c.clamped.clamped = c.clamped := by
  simp only [clamped, Limits.ttlSeconds, Limits.workers, clampNat_clampNat]

/-! ### The environment -/

variable {env : String → Option String}

/-- The flag of the environment, if it is set. -/
def flagged (env : String → Option String) (c : Config) : Config :=
  match env "SOLMIG_EXCLUDE_SENSITIVE" with
  | some raw => { c with excludeSensitive := flag raw }
  | none => c

theorem clamped_flagged (c : Config) : (flagged env c).clamped = flagged env c.clamped := by
  unfold flagged clamped
  split <;> rfl

theorem withEnvironment_eq (env : String → Option String) (c : Config) :
    withEnvironment env c = ((numbers.foldlM (override env) c).map clamped).map (flagged env) := by
  have hlast : ∀ x : Except Failure Config, (x.map clamped).map (flagged env) =
      x >>= fun c => .ok (flagged env c).clamped := by
    intro x
    cases x with
    | error e => rfl
    | ok c => exact congrArg Except.ok (clamped_flagged c).symm
  rw [hlast]
  simp only [numbers, List.foldlM_cons, List.foldlM_nil, bind_assoc]
  rfl

theorem get_flagged {x : Number} (hx : x ∈ numbers) (c : Config) : x.get (flagged env c) = x.get c := by
  revert x
  unfold flagged
  split <;> simp [numbers]

/-- What overriding makes of a number. -/
theorem get_of_foldlM {l : List Number} (hl : l.Pairwise Apart) (hset : ∀ x ∈ l, ∀ n c, x.get (x.set n c) = n)
    {c c' : Config} (h : l.foldlM (override env) c = .ok c') :
    (∀ y, (∀ x ∈ l, Apart x y) → y.get c' = y.get c) ∧
      ∀ x ∈ l, x.Unset env ∧ x.get c' = x.get c ∨ x.SetTo env (x.get c') := by
  induction l generalizing c with
  | nil =>
    obtain rfl := Except.ok.inj h
    exact ⟨fun _ _ => rfl, nofun⟩
  | cons x l ih =>
    rw [List.foldlM_cons] at h
    obtain ⟨hx, hl⟩ := List.pairwise_cons.mp hl
    obtain ⟨hsetx, hset⟩ := List.forall_mem_cons.mp hset
    rcases override_cases env x with ⟨hunset, hover⟩ | ⟨n, hn, hover⟩ | ⟨e, -, hover⟩ <;> rw [hover] at h
    · obtain ⟨hrest, hmem⟩ := ih hl hset h
      refine ⟨fun y hy => hrest y fun z hz => hy z (List.mem_cons_of_mem x hz), List.forall_mem_cons.mpr ⟨?_, hmem⟩⟩
      exact .inl ⟨hunset, hrest x fun z hz => (hx z hz).symm⟩
    · obtain ⟨hrest, hmem⟩ := ih hl hset h
      refine ⟨fun y hy => ?_, List.forall_mem_cons.mpr ⟨.inr ?_, fun z hz => ?_⟩⟩
      · rw [hrest y fun z hz => hy z (List.mem_cons_of_mem x hz), (hy x List.mem_cons_self n c).1]
      · rwa [hrest x fun z hz => (hx z hz).symm, hsetx]
      · rw [← (hx z hz n c).1]
        exact hmem z hz
    · cases h

/-- The first number that cannot be overridden is the one that is complained about. -/
theorem foldlM_override_eq_error_iff {l : List Number} {c : Config} {e : Failure} :
    l.foldlM (override env) c = .error e ↔ ∃ before x after, l = before ++ x :: after ∧
      (∀ y ∈ before, y.Unset env ∨ ∃ n, y.SetTo env n) ∧ x.Faulty env e := by
  induction l generalizing c with
  | nil => exact ⟨nofun, fun ⟨before, x, after, h, _⟩ => absurd h (by simp)⟩
  | cons x l ih =>
    rw [List.foldlM_cons]
    -- a number that is fine is passed over, and then the rest decides
    have hpass : ∀ c', (x.Unset env ∨ ∃ n, x.SetTo env n) → (l.foldlM (override env) c' = .error e ↔
        ∃ before y after, x :: l = before ++ y :: after ∧
          (∀ z ∈ before, z.Unset env ∨ ∃ n, z.SetTo env n) ∧ y.Faulty env e) := by
      intro c' hfine
      rw [ih]
      constructor
      · rintro ⟨before, y, after, rfl, hbefore, hy⟩
        exact ⟨x :: before, y, after, rfl, List.forall_mem_cons.mpr ⟨hfine, hbefore⟩, hy⟩
      · rintro ⟨before, y, after, hsplit, hbefore, hy⟩
        cases before with
        | nil =>
          obtain ⟨rfl, -⟩ := List.cons.inj hsplit
          exact absurd hfine hy.not_fine
        | cons b before =>
          obtain ⟨rfl, rfl⟩ := List.cons.inj hsplit
          exact ⟨before, y, after, rfl, (List.forall_mem_cons.mp hbefore).2, hy⟩
    rcases override_cases env x with ⟨hunset, hover⟩ | ⟨n, hn, hover⟩ | ⟨e', hfaulty, hover⟩
    · rw [hover]
      exact hpass c (.inl hunset)
    · rw [hover]
      exact hpass _ (.inr ⟨n, hn⟩)
    · rw [hover]
      constructor
      · intro h
        obtain rfl := Except.error.inj h
        exact ⟨[], x, l, rfl, nofun, hfaulty⟩
      · rintro ⟨before, y, after, hsplit, hbefore, hy⟩
        cases before with
        | nil =>
          obtain ⟨rfl, -⟩ := List.cons.inj hsplit
          exact congrArg Except.error (hfaulty.eq hy)
        | cons b before =>
          obtain ⟨rfl, -⟩ := List.cons.inj hsplit
          exact absurd (hbefore x List.mem_cons_self) hfaulty.not_fine

/-- Overriding the same numbers makes no difference between settings that are the same within the limits. -/
theorem clamped_foldlM {l : List Number} (hl : ∀ x ∈ l, x ∈ numbers) {c d : Config} (h : c.clamped = d.clamped) :
    (l.foldlM (override env) c).map clamped = (l.foldlM (override env) d).map clamped := by
  induction l generalizing c d with
  | nil => exact congrArg Except.ok h
  | cons x l ih =>
    obtain ⟨hx, hl⟩ := List.forall_mem_cons.mp hl
    rw [List.foldlM_cons, List.foldlM_cons]
    rcases override_cases env x with ⟨-, hover⟩ | ⟨n, -, hover⟩ | ⟨e, -, hover⟩
    · rw [hover, hover]
      exact ih hl h
    · rw [hover, hover]
      exact ih hl (by rw [clamped_set hx, clamped_set hx, h])
    · rw [hover, hover]

/-- That the settings were moved between the limits before makes no difference. -/
theorem withEnvironment_clamped (env : String → Option String) (c : Config) :
    withEnvironment env c.clamped = withEnvironment env c := by
  rw [withEnvironment_eq, withEnvironment_eq, clamped_foldlM (fun _ hx => hx) (clamped_clamped c)]

/-! ### Files -/

/-- What a file says of a number, or the default if it says nothing. -/
def InFile (members : List (String × Json.Value)) (x : Number) (n : ℕ) : Prop :=
  members.lookup x.key = some (.nat n) ∨ members.lookup x.key = none ∧ n = x.get default

theorem inFile_of_memberOr {members : List (String × Json.Value)} {x : Number} {wanted : String} {n : ℕ}
    (h : Json.MemberOr members x.key (Json.natural wanted) (x.get default) n) : InFile members x n := by
  cases h with
  | found h hr =>
    obtain rfl := Json.natural_doc_eq_ok_iff.mp hr
    exact .inl h
  | missing h => exact .inr ⟨h, rfl⟩

theorem inFile_of_reader {members : List (String × Json.Value)} {c : Config}
    (h : reader (Json.Value.object members).doc = .ok c) : ∀ x ∈ numbers, InFile members x (x.get c) := by
  have hyields := ((((((((((Json.Fields.yields_fieldOr "cache_ttl_secs" Json.size default.cacheTtlSeconds).map
    Config.mk).seq
    (Json.Fields.yields_fieldOr "max_repositories" Json.count default.maxRepositories) (by decide)).seq
    (Json.Fields.yields_fieldOr "analysis_workers" Json.count default.analysisWorkers) (by decide)).seq
    (Json.Fields.yields_fieldOr "fetch_concurrency" Json.count default.fetchConcurrency) (by decide)).seq
    (Json.Fields.yields_fieldOr "transform_concurrency" Json.count default.transformConcurrency) (by decide)).seq
    (Json.Fields.yields_fieldOr "max_source_bytes" Json.count default.maxSourceBytes) (by decide)).seq
    (Json.Fields.yields_fieldOr "exclude_sensitive" Json.boolean default.excludeSensitive) (by decide)).seq
    (Json.Fields.yields_fieldOr "exclude_dirs" (Json.list Json.string) default.excludeDirs) (by decide)).seq
    (Json.Fields.yields_fieldOr "external_import_prefixes" (Json.list Json.string) default.importPrefixes)
    (by decide)).seq
    (Json.Fields.yields_fieldOr "external_parent_names" (Json.list Json.string) default.parentNames) (by decide)
  obtain ⟨_, ⟨_, ⟨_, ⟨_, ⟨_, ⟨_, ⟨_, ⟨_, ⟨_, ⟨ttl, httl, rfl⟩, repositories, hrepositories, rfl⟩, workers, hworkers, rfl⟩,
    fetches, hfetches, rfl⟩, transforms, htransforms, rfl⟩, bytes, hbytes, rfl⟩, _, -, rfl⟩, _, -, rfl⟩, _, -, rfl⟩,
    _, -, rfl⟩ := hyields.record h
  simp only [numbers, List.forall_mem_cons]
  exact ⟨inFile_of_memberOr httl, inFile_of_memberOr hrepositories, inFile_of_memberOr hworkers,
    inFile_of_memberOr hfetches, inFile_of_memberOr htransforms, inFile_of_memberOr hbytes, nofun⟩

theorem ofToml_cases (text : String) : (∃ message, ofToml text = .error (.config message)) ∨
    ∃ members c, Toml.parse? text = some (.object members) ∧ reader (Json.Value.object members).doc = .ok c ∧
      ofToml text = .ok c.clamped := by
  rw [ofToml]
  rcases hparse : Toml.parse? text with _ | v
  · exact .inl ⟨_, rfl⟩
  · obtain ⟨members, rfl⟩ : ∃ members, v = .object members := by
      obtain ⟨es, -, rfl⟩ := Option.map_eq_some_iff.mp hparse
      exact ⟨_, rfl⟩
    dsimp only
    rcases hread : reader (Json.Value.object members).doc with e | c
    · exact .inl ⟨_, rfl⟩
    · exact .inr ⟨members, c, rfl, hread, rfl⟩

/-! ### What takes effect -/

/-- What a number is before it is moved between its limits: what the environment says, else what the file says, else the
default. -/
def Chosen (env : String → Option String) (members : List (String × Json.Value)) (x : Number) (n : ℕ) : Prop :=
  x.SetTo env n ∨ x.Unset env ∧ InFile members x n

theorem withEnvironment_eq_error_iff {c : Config} {e : Failure} : withEnvironment env c = .error e ↔
    ∃ before x after, numbers = before ++ x :: after ∧ (∀ y ∈ before, y.Unset env ∨ ∃ n, y.SetTo env n) ∧
      x.Faulty env e := by
  rw [withEnvironment_eq, ← foldlM_override_eq_error_iff (c := c)]
  cases numbers.foldlM (override env) c with
  | error e' => exact Iff.rfl
  | ok c' => exact ⟨nofun, nofun⟩

/-- Every number of the settings that take effect is the one that was chosen for it, moved between its limits. -/
theorem chosen_of_withEnvironment {members : List (String × Json.Value)} {c c' : Config}
    (hfile : ∀ x ∈ numbers, InFile members x (x.get c)) (h : withEnvironment env c = .ok c') :
    ∀ x ∈ numbers, ∃ n, Chosen env members x n ∧ x.get c' = Limits.clampNat n x.low x.high := by
  intro x hx
  rw [withEnvironment_eq] at h
  rcases hover : numbers.foldlM (override env) c with e | d <;> rw [hover] at h
  · cases h
  · obtain rfl := Except.ok.inj h
    refine ⟨x.get d, ?_, by rw [get_flagged hx, get_clamped hx]⟩
    rcases (get_of_foldlM numbers_apart (fun y hy n c => get_set hy n c) hover).2 x hx with ⟨hunset, hsame⟩ | hset
    · exact .inr ⟨hunset, hsame ▸ hfile x hx⟩
    · exact .inl hset

/-- The settings that take effect can be used. Whatever the file and the environment hold, there is a failure of the
configuration, or settings with every number between its limits, and not zero: the number that the environment says, else
the file, else the defaults, moved between the limits. It makes no difference to move them twice, or to do so before the
environment is looked at; and a failure of the environment is about the first variable, in a fixed order, that is set to
something else than a number. -/
theorem effective_settings (text : String) (env : String → Option String) :
    ((∃ message, (ofToml text >>= withEnvironment env) = .error (.config message)) ∨
      ∃ members c, Toml.parse? text = some (.object members) ∧ (ofToml text >>= withEnvironment env) = .ok c ∧
        ∀ x ∈ numbers, x.low ≤ x.get c ∧ x.get c ≤ x.high ∧ 0 < x.get c ∧
          ∃ n, Chosen env members x n ∧ x.get c = Limits.clampNat n x.low x.high) ∧
    (∀ c : Config, c.clamped.clamped = c.clamped ∧ withEnvironment env c.clamped = withEnvironment env c) ∧
    ∀ (c : Config) (e : Failure), withEnvironment env c = .error e ↔
      ∃ before x after, numbers = before ++ x :: after ∧ (∀ y ∈ before, y.Unset env ∨ ∃ n, y.SetTo env n) ∧
        x.Faulty env e := by
  refine ⟨?_, fun c => ⟨clamped_clamped c, withEnvironment_clamped env c⟩, fun c e => withEnvironment_eq_error_iff⟩
  rcases ofToml_cases text with ⟨message, hfault⟩ | ⟨members, c, hparse, hread, hfile⟩
  · exact .inl ⟨message, by rw [hfault]; rfl⟩
  · have hboth : (ofToml text >>= withEnvironment env) = withEnvironment env c := by
      rw [hfile, ← withEnvironment_clamped]
      rfl
    rw [hboth]
    rcases heffect : withEnvironment env c with e | c'
    · obtain ⟨before, x, after, -, -, name, raw, -, -, -, rfl⟩ := withEnvironment_eq_error_iff.mp heffect
      exact .inl ⟨_, rfl⟩
    · refine .inr ⟨members, c', hparse, rfl, fun x hx => ?_⟩
      obtain ⟨n, hchosen, hget⟩ := chosen_of_withEnvironment (inFile_of_reader hread) heffect x hx
      obtain ⟨hlow, hhigh⟩ := clampNat_bounds (low_le_high hx).2 n
      rw [← hget] at hlow hhigh
      exact ⟨hlow, hhigh, (low_le_high hx).1.trans_le hlow, n, hchosen, hget⟩

/-- A file without workers and with too many fetches, and a lifetime in the environment. -/
theorem effective_settings_overridden :
    let text := "analysis_workers = 0\nfetch_concurrency = 500\n"
    let env := fun name => if name = "SOLMIG_CACHE_TTL_SECS" then some " +0120 " else none
    ∃ c, (ofToml text >>= withEnvironment env) = .ok c ∧ c.cacheTtlSeconds = 120 ∧ c.analysisWorkers = 1 ∧
      c.fetchConcurrency = 64 ∧ ∀ x ∈ numbers, 0 < x.get c := by
  intro text env
  have hok : (ofToml "analysis_workers = 0\nfetch_concurrency = 500\n" >>=
      withEnvironment fun name => if name = "SOLMIG_CACHE_TTL_SECS" then some " +0120 " else none) =
      .ok { default with cacheTtlSeconds := 120, analysisWorkers := 1, fetchConcurrency := 64 } := by
    decide +kernel
  rcases (effective_settings text env).1 with ⟨message, herror⟩ | ⟨members, c, -, hc, hnumbers⟩
  · cases hok.symm.trans herror
  · obtain rfl := Except.ok.inj (hok.symm.trans hc)
    exact ⟨_, hc, rfl, rfl, rfl, fun x hx => (hnumbers x hx).2.2.1⟩

end ContractMigration.Config
