import ContractMigration.Proofs.Report.Issues
import Mathlib.Data.List.Basic

/-! Unchanged files. The files of a repository are analysed, and some of them are then checked as they are, as if they had
been transformed. Their parents are always found, and all of them can be read again. Their imports are measured against
the paths of contracts, so an import of an unchanged file is an issue exactly when it leads to a file that declares no
contract and is not checked with it. -/

namespace ContractMigration

open Solidity (ExtractedFile)

/-- A file of a repository: its path and its text. -/
abbrev Source := String × String

namespace Solidity

variable {path source : String} {f : ExtractedFile}

theorem filePath_unitOf {imports : List String} {t : Tree} {u : ContractUnit} (h : unitOf? path imports t = some u) :
    u.filePath = path := by
  simp only [unitOf?, Option.bind_eq_bind, Option.bind_eq_some_iff] at h
  obtain ⟨kind, -, name, -, h⟩ := h
  split at h
  · simp at h
  · obtain rfl := Option.some.inj h
    rfl

/-- A file that was read, and all that it declares, go by the path under which it was read. -/
theorem filePath_extract (h : extract path source = .ok f) : f.filePath = path ∧ ∀ u ∈ f.contracts, u.filePath = path := by
  unfold extract at h
  split at h
  · obtain rfl := Except.ok.inj h
    refine ⟨rfl, fun u hu => ?_⟩
    obtain ⟨t, -, ht⟩ := List.mem_filterMap.mp hu
    exact filePath_unitOf ht
  · cases h

end Solidity

/-! ### The files of a repository -/

/-- The files among sources that can be read. -/
def readable (sources : List Source) : List ExtractedFile := sources.filterMap fun s => (Solidity.extract s.1 s.2).toOption

theorem mem_readable {sources : List Source} {f : ExtractedFile} :
    f ∈ readable sources ↔ ∃ s ∈ sources, Solidity.extract s.1 s.2 = .ok f := by
  simp only [readable, List.mem_filterMap]
  refine exists_congr fun s => and_congr_right fun _ => ?_
  cases Solidity.extract s.1 s.2 <;> simp [Except.toOption]

/-- All files can be read, and none of them is too large for an analysis. -/
def AllParsed (sources : List Source) (maxBytes : Nat) : Prop :=
  ∀ s ∈ sources, s.2.utf8ByteSize ≤ maxBytes ∧ (Solidity.extract s.1 s.2).toOption.isSome

instance (sources : List Source) (maxBytes : Nat) : Decidable (AllParsed sources maxBytes) :=
  inferInstanceAs (Decidable (∀ s ∈ sources, _))

namespace AllParsed

variable {sources : List Source} {maxBytes : Nat}

theorem extract (h : AllParsed sources maxBytes) {s : Source} (hs : s ∈ sources) :
    ∃ f, Solidity.extract s.1 s.2 = .ok f := by
  have hsome := (h s hs).2
  cases hf : Solidity.extract s.1 s.2 with
  | ok f => exact ⟨f, rfl⟩
  | error e => simp [hf, Except.toOption] at hsome

/-- An analysis takes the same from a file as the check does. -/
theorem extract_input (h : AllParsed sources maxBytes) {s : Source} (hs : s ∈ sources) :
    (SourceInput.extract maxBytes ⟨s.1, .ok s.2⟩).toOption = (Solidity.extract s.1 s.2).toOption := by
  obtain ⟨f, hf⟩ := h.extract hs
  simp only [SourceInput.extract, if_neg (Nat.not_lt.mpr (h s hs).1), hf]
  rfl

theorem mono {checked : List Source} (h : AllParsed sources maxBytes) (hc : checked ⊆ sources) :
    AllParsed checked maxBytes := fun s hs => h s (hc hs)

theorem length_readable (h : AllParsed sources maxBytes) : (readable sources).length = sources.length :=
  List.filterMap_length_eq_length.mpr fun s hs => (h s hs).2

theorem paths_readable (h : AllParsed sources maxBytes) {path : String} :
    (∃ f ∈ readable sources, f.filePath = path) ↔ path ∈ sources.map Prod.fst := by
  simp only [mem_readable, List.mem_map]
  constructor
  · rintro ⟨f, ⟨s, hs, hf⟩, rfl⟩
    exact ⟨s, hs, (Solidity.filePath_extract hf).1.symm⟩
  · rintro ⟨s, hs, rfl⟩
    obtain ⟨f, hf⟩ := h.extract hs
    exact ⟨f, ⟨s, hs, hf⟩, (Solidity.filePath_extract hf).1⟩

/-- The report on files that can all be read. -/
theorem validateConsistency_eq (h : AllParsed sources maxBytes) (a : Analysis) (rules : ConsistencyRules) :
    validateConsistency a sources rules = validateExtracted a.contracts (readable sources) rules := by
  unfold validateConsistency
  extract_lets outcomes files broken report filesChecked
  have hfiles : files = readable sources := List.filterMap_map
  have hbroken : broken = [] := by
    refine List.filterMap_eq_nil_iff.mpr fun o ho => ?_
    obtain ⟨s, hs, rfl⟩ := List.mem_map.mp ho
    obtain ⟨f, hf⟩ := h.extract hs
    simp only [hf]
  have hreport : report = validateExtracted a.contracts (readable sources) rules := by rw [← hfiles]
  have hcount : filesChecked = report.filesChecked := by simp [filesChecked, hbroken]
  have hchecked : decide (0 < report.filesChecked) = report.checked := by
    simp only [report, validateExtracted_eq]
    cases files with
    | nil => rfl
    | cons f rest => simp
  rw [hcount, hchecked, hbroken, ← hreport]
  simp [report, validateExtracted_eq]

end AllParsed

/-- The analysis of the files of a repository. -/
def analyzeSources (key : Key) (filesScanned : Nat) (sources : List Source) (options : AnalysisOptions) (clock : Clocked) :
    Analysis :=
  analyze key filesScanned (sources.map fun s => ⟨s.1, .ok s.2⟩) options clock

/-- The contracts of an analysis are those of its files. -/
theorem contracts_analyzeSources {sources : List Source} {options : AnalysisOptions}
    (h : AllParsed sources options.maxSourceBytes) (key : Key) (filesScanned : Nat) (clock : Clocked) :
    (analyzeSources key filesScanned sources options clock).contracts =
      (readable sources).flatMap ExtractedFile.contracts := by
  have hfiles : parsedFiles ((sources.map fun s => (⟨s.1, .ok s.2⟩ : SourceInput)).map fun i =>
      (i.path, i.extract options.maxSourceBytes)) = readable sources := by
    simp only [parsedFiles, readable, List.filterMap_map]
    exact List.filterMap_congr fun s hs => h.extract_input hs
  rw [← hfiles]
  rfl

/-! ### Repositories that are whole -/

/-- A repository that is whole: every file can be read, every import leads out of it or to one of its files, and every
parent is declared in one of them or may be declared outside. -/
structure SelfContained (sources : List Source) (maxBytes : Nat) (rules : ConsistencyRules) : Prop where
  parsed : AllParsed sources maxBytes
  imports : ∀ f ∈ readable sources, ∀ t ∈ f.imports,
    Import.isExternal t rules.importPrefixes = true ∨ Import.resolve f.filePath t ∈ sources.map Prod.fst
  parents : ∀ f ∈ readable sources, ∀ c ∈ f.contracts, ∀ p ∈ c.inherits,
    isExternalParent p rules.parentNames = true ∨
      ∃ g ∈ readable sources, ∃ d ∈ g.contracts, d.name = p ∨ d.name = simpleName p

/-- A path that an import of a checked file may lead to: that of a file which is checked as well, or of one that declares a
contract. -/
def Reached (sources checked : List Source) (path : String) : Prop :=
  path ∈ checked.map Prod.fst ∨ ∃ f ∈ readable sources, f.filePath = path ∧ f.contracts ≠ []

instance (sources checked : List Source) (path : String) : Decidable (Reached sources checked path) :=
  inferInstanceAs (Decidable (_ ∨ _))

/-- Every import of the checked files that does not lead out of the repository leads to such a path. -/
def ImportsReached (sources checked : List Source) (rules : ConsistencyRules) : Prop :=
  ∀ f ∈ readable checked, ∀ t ∈ f.imports,
    Import.isExternal t rules.importPrefixes = true ∨ Reached sources checked (Import.resolve f.filePath t)

instance (sources checked : List Source) (rules : ConsistencyRules) : Decidable (ImportsReached sources checked rules) :=
  inferInstanceAs (Decidable (∀ f ∈ readable checked, _))

section

variable {sources checked : List Source} {rules : ConsistencyRules} {options : AnalysisOptions}

theorem readable_subset (hc : checked ⊆ sources) : readable checked ⊆ readable sources := fun _ hf =>
  have ⟨s, hs, hextract⟩ := mem_readable.mp hf
  mem_readable.mpr ⟨s, hc hs, hextract⟩

/-- The paths that are known when unchanged files are checked. -/
theorem mem_paths_unchanged (h : AllParsed sources options.maxSourceBytes) (hc : checked ⊆ sources) (key : Key)
    (filesScanned : Nat) (clock : Clocked) {path : String} :
    path ∈ (Known.of (analyzeSources key filesScanned sources options clock).contracts (readable checked)).paths ↔
      Reached sources checked path := by
  rw [Known.of, contracts_analyzeSources h, List.mem_append, Reached, ← (h.mono hc).paths_readable, or_comm]
  refine or_congr List.mem_map ?_
  simp only [List.mem_map, List.mem_flatMap]
  constructor
  · rintro ⟨u, ⟨f, hf, hu⟩, rfl⟩
    obtain ⟨s, hs, hextract⟩ := mem_readable.mp hf
    obtain ⟨hfile, hunits⟩ := Solidity.filePath_extract hextract
    exact ⟨f, hf, hfile.trans (hunits u hu).symm, List.ne_nil_of_mem hu⟩
  · rintro ⟨f, hf, rfl, hne⟩
    obtain ⟨u, hu⟩ := List.exists_mem_of_ne_nil _ hne
    obtain ⟨s, hs, hextract⟩ := mem_readable.mp hf
    obtain ⟨hfile, hunits⟩ := Solidity.filePath_extract hextract
    exact ⟨u, ⟨f, hf, hu⟩, (hunits u hu).trans hfile.symm⟩

/-- A name that some file of the repository declares is known. -/
theorem mem_names_unchanged (h : AllParsed sources options.maxSourceBytes) (checked : List Source) (key : Key)
    (filesScanned : Nat) (clock : Clocked) {f : ExtractedFile} (hf : f ∈ readable sources) {u : ContractUnit} (hu : u ∈ f.contracts) :
    u.name ∈ (Known.of (analyzeSources key filesScanned sources options clock).contracts (readable checked)).names := by
  rw [Known.of, contracts_analyzeSources h]
  exact List.mem_append_left _ (List.mem_map_of_mem (List.mem_flatMap.mpr ⟨f, hf, hu⟩))

/-- Files of a whole repository are checked without change. All parents are found and all files are read; the imports are
valid, and nothing at all is an issue, exactly if every import that stays in the repository leads to a file that is
checked as well or declares a contract. -/
theorem unchanged_consistent_iff (key : Key) (filesScanned : Nat) (options : AnalysisOptions) (clock : Clocked)
    (h : SelfContained sources options.maxSourceBytes rules) (hc : checked ⊆ sources) :
    let report := validateConsistency (analyzeSources key filesScanned sources options clock) checked rules
    report.inheritanceValid = true ∧ report.syntaxErrors = 0 ∧ report.filesChecked = checked.length ∧
      (report.importsValid = true ↔ ImportsReached sources checked rules) ∧
      (report.issues = [] ↔ ImportsReached sources checked rules) := by
  intro report
  have hreport : report = validateExtracted (analyzeSources key filesScanned sources options clock).contracts
      (readable checked) rules := (h.parsed.mono hc).validateConsistency_eq _ _
  have hparents : report.inheritanceValid = true := by
    rw [hreport, inheritanceValid_iff]
    intro f hf c hcf p hp
    rcases h.parents f (readable_subset hc hf) c hcf p hp with hexternal | ⟨g, hg, d, hd, hname⟩
    · exact .inr hexternal
    · have hknown := mem_names_unchanged h.parsed checked key filesScanned clock hg hd
      refine .inl ?_
      rcases hname with rfl | hname
      · simp [Known.declares, hknown]
      · simp [Known.declares, ← hname, hknown]
  have himports : report.importsValid = true ↔ ImportsReached sources checked rules := by
    rw [hreport, importsValid_iff]
    simp only [Known.Leads, mem_paths_unchanged h.parsed hc]
    exact Iff.rfl
  have hissues : report.issues = [] ↔ report.importsValid = true := by
    rw [hreport, issues_eq_nil_iff, ← hreport, and_iff_left hparents]
  refine ⟨hparents, ?_, ?_, himports, hissues.trans himports⟩
  · rw [hreport, validateExtracted_eq]
  · rw [hreport, validateExtracted_eq]
    exact (h.parsed.mono hc).length_readable

end

/-! ### A file of constants -/

/-- A file that declares constants and no contract. -/
def limitsSource : Source := ("src/Limits.sol", "uint256 constant MAX = 10;")

/-- A contract that imports them. -/
def vaultSource : Source := ("src/Vault.sol", "import \"./Limits.sol\"; contract Vault is Ownable \x7b\x7d")

/-- Contracts named `Ownable` are declared outside. -/
def vaultRules : ConsistencyRules := ⟨Import.externalPrefixes, ["Ownable"]⟩

/-- The report on the contract with or without the constants, after an analysis of both files. -/
def vaultReport (checked : List Source) : ConsistencyReport :=
  validateConsistency (analyzeSources ⟨"acme", "vaults"⟩ 2 [limitsSource, vaultSource] ⟨4, 1000⟩ ⟨⟨0, 0⟩, 0⟩) checked
    vaultRules

theorem selfContained_vault : SelfContained [limitsSource, vaultSource] 1000 vaultRules :=
  ⟨by decide +kernel, by decide +kernel, by decide +kernel⟩

theorem unchanged_consistent_vault :
    SelfContained [limitsSource, vaultSource] 1000 vaultRules ∧
      ImportsReached [limitsSource, vaultSource] [limitsSource, vaultSource] vaultRules ∧
      (vaultReport [limitsSource, vaultSource]).issues = [] := by
  have hreached : ImportsReached [limitsSource, vaultSource] [limitsSource, vaultSource] vaultRules := by decide +kernel
  have hreport := unchanged_consistent_iff ⟨"acme", "vaults"⟩ 2 ⟨4, 1000⟩ ⟨⟨0, 0⟩, 0⟩ selfContained_vault
    (List.Subset.refl _)
  exact ⟨selfContained_vault, hreached, hreport.2.2.2.2.mpr hreached⟩

/-- The contract alone, unchanged, is not consistent with the analysis of its own repository. -/
theorem unchanged_vault_is_issue :
    SelfContained [limitsSource, vaultSource] 1000 vaultRules ∧
      ([limitsSource, vaultSource].map Prod.fst).Nodup ∧
      (∀ s ∈ [limitsSource, vaultSource], s.1 ≠ "" ∧ Path.normalize s.1 = s.1) ∧
      (vaultReport [vaultSource]).importsValid = false ∧
      (vaultReport [vaultSource]).issues =
        ["src/Vault.sol: import \"./Limits.sol\" resolves to src/Limits.sol, which is not a known contract file"] :=
  ⟨selfContained_vault, by decide +kernel, by decide +kernel, by decide +kernel, by decide +kernel⟩

end ContractMigration
