import ContractMigration.Analysis.Basic
import Mathlib.Data.List.Basic

/-! Sources that cannot be used. A source that is not fetched, that is too large or that is not well formed is listed as a
failure with its path, in the order of the sources, and nothing that is known of the other sources depends on it. Every
source is either read or listed so, and the counts of an analysis are those of what it found. -/

namespace ContractMigration

open Solidity (ExtractedFile)

theorem Solidity.extract_of_parse? {path source : String} (h : parse? source = none) :
    extract path source = .error (.parse path malformed) := by
  unfold extract
  split
  · next hs => cases h.symm.trans hs
  · rfl

namespace SourceInput

/-- Nothing can be taken from the source: it was not fetched, it is larger than the bound, or it is not well formed. -/
inductive Unusable (maxBytes : Nat) (i : SourceInput) : Prop
  | notFetched {reason : String} (h : i.content = .error reason)
  | tooLarge {source : String} (h : i.content = .ok source) (hsize : maxBytes < source.utf8ByteSize)
  | notRead {source : String} {f : Failure} (h : i.content = .ok source) (hread : Solidity.extract i.path source = .error f)

/-- The contracts that a source declares, none if it cannot be used. -/
def units (maxBytes : Nat) (i : SourceInput) : List ContractUnit :=
  match i.content with
  | .ok source =>
    if source.utf8ByteSize ≤ maxBytes then
      match Solidity.extract i.path source with
      | .ok f => f.contracts
      | .error _ => []
    else []
  | .error _ => []

variable {maxBytes : Nat} {i : SourceInput}

theorem Unusable.extract (h : i.Unusable maxBytes) : ∃ message, i.extract maxBytes = .error message := by
  cases h with
  | notFetched h => exact ⟨_, by rw [SourceInput.extract, h]⟩
  | tooLarge h hsize =>
    rw [SourceInput.extract, h]
    exact ⟨_, if_pos hsize⟩
  | @notRead source f h hread =>
    rw [SourceInput.extract, h]
    by_cases hsize : maxBytes < source.utf8ByteSize
    · exact ⟨_, if_pos hsize⟩
    · simp only [if_neg hsize, hread]
      cases f <;> exact ⟨_, rfl⟩

/-- What is extracted for an analysis are the contracts of the source. -/
theorem units_of_extract : i.units maxBytes = ((i.extract maxBytes).toOption.map ExtractedFile.contracts).getD [] := by
  rw [units, SourceInput.extract]
  cases i.content with
  | error reason => rfl
  | ok source =>
    by_cases hsize : maxBytes < source.utf8ByteSize
    · simp only [if_pos hsize, if_neg (Nat.not_le.mpr hsize)]
      rfl
    · simp only [if_neg hsize, if_pos (Nat.not_lt.mp hsize)]
      cases Solidity.extract i.path source with
      | ok f => rfl
      | error f => cases f <;> rfl

end SourceInput

/-! ### The outcomes of all sources -/

theorem parsedFiles_append (xs ys : List (String × Except String ExtractedFile)) :
    parsedFiles (xs ++ ys) = parsedFiles xs ++ parsedFiles ys := List.filterMap_append

theorem failuresOf_append (xs ys : List (String × Except String ExtractedFile)) :
    failuresOf (xs ++ ys) = failuresOf xs ++ failuresOf ys := List.filterMap_append

/-- An outcome is a file or a failure. -/
theorem length_parsedFiles_add_failuresOf (outcomes : List (String × Except String ExtractedFile)) :
    (parsedFiles outcomes).length + (failuresOf outcomes).length = outcomes.length := by
  induction outcomes with
  | nil => rfl
  | cons o outcomes ih =>
    obtain ⟨path, f | m⟩ := o
    all_goals
      simp only [parsedFiles, failuresOf, List.filterMap_cons, Except.toOption, List.length_cons] at ih ⊢
      omega

theorem flatMap_contracts_parsedFiles (inputs : List SourceInput) (maxBytes : Nat) :
    (parsedFiles (inputs.map fun i => (i.path, i.extract maxBytes))).flatMap ExtractedFile.contracts =
      inputs.flatMap (SourceInput.units maxBytes) := by
  induction inputs with
  | nil => rfl
  | cons i inputs ih =>
    rw [List.flatMap_cons, ← ih, SourceInput.units_of_extract]
    cases h : i.extract maxBytes <;> simp [parsedFiles, h, Except.toOption]

/-- Each contract is of one of the four kinds. -/
theorem sum_countKind (units : List ContractUnit) :
    countKind units .contract + countKind units .abstract + countKind units .interface + countKind units .library =
      units.length := by
  induction units with
  | nil => rfl
  | cons u units ih =>
    simp only [countKind] at ih
    cases h : u.kind <;> simp [countKind, h] <;> omega

/-- Each edge is of one of the two kinds. -/
theorem DependencyGraph.sum_edgeCount (g : DependencyGraph) :
    g.edgeCount .import + g.edgeCount .inheritance = g.edges.length := by
  unfold edgeCount
  induction g.edges with
  | nil => rfl
  | cons e edges ih => cases h : e.kind <;> simp [h] <;> omega

/-! ### Analyses -/

/-- The counts of an analysis add up, and its contracts are those of its sources. -/
structure Analysis.Balanced (a : Analysis) (inputs : List SourceInput) (maxBytes : Nat) : Prop where
  files : a.stats.filesParsed + a.parseErrors.length = inputs.length
  sourceFiles : a.sourceFiles = inputs.map SourceInput.path
  contracts : a.contracts = inputs.flatMap (SourceInput.units maxBytes)
  kinds : a.stats.contracts + a.stats.abstractContracts + a.stats.interfaces + a.stats.libraries = a.contracts.length
  edges : a.stats.importEdges + a.stats.inheritanceEdges = a.graph.edges.length

theorem balanced_analyze (key : Key) (filesScanned : Nat) (inputs : List SourceInput) (options : AnalysisOptions)
    (clock : Clocked) :
    (analyze key filesScanned inputs options clock).Balanced inputs options.maxSourceBytes where
  files := (length_parsedFiles_add_failuresOf _).trans (List.length_map _)
  sourceFiles := rfl
  contracts := flatMap_contracts_parsedFiles inputs options.maxSourceBytes
  kinds := sum_countKind _
  edges := DependencyGraph.sum_edgeCount _

/-- An analysis with one more source that cannot be used: a failure with its path, its path among the sources and its
bytes in the digest, at its place; and the file is no longer one that was passed over. -/
def Analysis.withUnusable (a : Analysis) (failures failures' : List ParseFailure) (message : String) (xs ys : List SourceInput)
    (bad : SourceInput) : Analysis :=
  { a with
    parseErrors := failures ++ ⟨bad.path, message⟩ :: failures'
    sourceFiles := xs.map SourceInput.path ++ bad.path :: ys.map SourceInput.path
    sourceDigest := Digest.hex (Digest.sha256 (digestStream xs ++ bad.digestBytes ++ digestStream ys))
    stats := { a.stats with filesSkipped := a.stats.filesScanned - (xs.length + ys.length + 1) } }

theorem analyze_insert {bad : SourceInput} {message : String} (key : Key) (filesScanned : Nat) (xs ys : List SourceInput)
    (options : AnalysisOptions) (clock : Clocked) (h : bad.extract options.maxSourceBytes = .error message) :
    analyze key filesScanned (xs ++ bad :: ys) options clock =
      (analyze key filesScanned (xs ++ ys) options clock).withUnusable (analyze key filesScanned xs options clock).parseErrors
        (analyze key filesScanned ys options clock).parseErrors message xs ys bad := by
  have hfiles : parsedFiles ((xs ++ bad :: ys).map fun i => (i.path, i.extract options.maxSourceBytes)) =
      parsedFiles ((xs ++ ys).map fun i => (i.path, i.extract options.maxSourceBytes)) := by
    simp only [List.map_append, List.map_cons, parsedFiles_append]
    simp [parsedFiles, h, Except.toOption]
  have hfailures : failuresOf ((xs ++ bad :: ys).map fun i => (i.path, i.extract options.maxSourceBytes)) =
      failuresOf (xs.map fun i => (i.path, i.extract options.maxSourceBytes)) ++
        ⟨bad.path, message⟩ :: failuresOf (ys.map fun i => (i.path, i.extract options.maxSourceBytes)) := by
    simp only [List.map_append, List.map_cons, failuresOf_append]
    simp [failuresOf, h]
  have hpaths : (xs ++ bad :: ys).map SourceInput.path = xs.map SourceInput.path ++ bad.path :: ys.map SourceInput.path := by
    simp
  have hdigest : digestStream (xs ++ bad :: ys) = digestStream xs ++ bad.digestBytes ++ digestStream ys := by
    simp [digestStream]
  have hcount : (xs ++ bad :: ys).length = xs.length + ys.length + 1 := by
    simp only [List.length_append, List.length_cons]
    omega
  simp only [analyze, Analysis.withUnusable, sourceDigest, hfiles, hfailures, hpaths, hdigest, hcount]

/-- Whatever the sources, the counts of their analysis add up. And one more of them that cannot be used, wherever it
stands, leaves all that was found as it was. -/
theorem unusable_isolated (key : Key) (filesScanned : Nat) (options : AnalysisOptions) (clock : Clocked) :
    (∀ inputs, (analyze key filesScanned inputs options clock).Balanced inputs options.maxSourceBytes) ∧
      ∀ xs ys bad, bad.Unusable options.maxSourceBytes →
        let before := analyze key filesScanned (xs ++ ys) options clock
        let after := analyze key filesScanned (xs ++ bad :: ys) options clock
        let failures := (analyze key filesScanned xs options clock).parseErrors
        let failures' := (analyze key filesScanned ys options clock).parseErrors
        before.parseErrors = failures ++ failures' ∧
          (∃ message, after = before.withUnusable failures failures' message xs ys bad) ∧
          (after.stats.filesSkipped = before.stats.filesSkipped ∨
            after.stats.filesSkipped + 1 = before.stats.filesSkipped) := by
  refine ⟨fun inputs => balanced_analyze key filesScanned inputs options clock, fun xs ys bad hbad => ?_⟩
  intro before after failures failures'
  obtain ⟨message, hmessage⟩ := hbad.extract
  have hafter : after = before.withUnusable failures failures' message xs ys bad :=
    analyze_insert key filesScanned xs ys options clock hmessage
  refine ⟨?_, ⟨message, hafter⟩, ?_⟩
  · simp [before, failures, failures', analyze, failuresOf]
  · have hbefore : before.stats.filesSkipped = filesScanned - (xs.length + ys.length) := by
      simp [before, analyze]
    have hskipped : after.stats.filesSkipped = filesScanned - (xs.length + ys.length + 1) := by
      rw [hafter]
      rfl
    omega

/-- A source of which the closing brace is missing, between two that are read. -/
theorem unusable_isolated_unclosed :
    let a : SourceInput := ⟨"a.sol", .ok "contract A {}"⟩
    let bad : SourceInput := ⟨"bad.sol", .ok "contract Bad \x7b"⟩
    let b : SourceInput := ⟨"b.sol", .ok "import './a.sol'; contract B is A {}"⟩
    let before := analyze ⟨"acme", "vaults"⟩ 2 [a, b] ⟨4, 1000⟩ ⟨⟨0, 0⟩, 0⟩
    let after := analyze ⟨"acme", "vaults"⟩ 2 [a, bad, b] ⟨4, 1000⟩ ⟨⟨0, 0⟩, 0⟩
    bad.Unusable 1000 ∧ after.contracts = before.contracts ∧ after.graph = before.graph ∧
      after.sourceFiles = ["a.sol", "bad.sol", "b.sol"] ∧
      (∃ message, after.parseErrors = [⟨"bad.sol", message⟩]) ∧
      after.stats.filesParsed + after.parseErrors.length = 3 := by
  intro a bad b before after
  have hunclosed : (Solidity.parse? "contract Bad \x7b").isNone = true := by decide +kernel
  have hbad : bad.Unusable 1000 := .notRead rfl (Solidity.extract_of_parse? (Option.isNone_iff_eq_none.mp hunclosed))
  obtain ⟨hbalanced, hisolated⟩ := unusable_isolated ⟨"acme", "vaults"⟩ 2 ⟨4, 1000⟩ ⟨⟨0, 0⟩, 0⟩
  obtain ⟨-, ⟨message, hafter⟩, -⟩ := hisolated [a] [b] bad hbad
  have ha : (analyze ⟨"acme", "vaults"⟩ 2 [a] ⟨4, 1000⟩ ⟨⟨0, 0⟩, 0⟩).parseErrors = [] := by decide +kernel
  have hb : (analyze ⟨"acme", "vaults"⟩ 2 [b] ⟨4, 1000⟩ ⟨⟨0, 0⟩, 0⟩).parseErrors = [] := by decide +kernel
  rw [ha, hb] at hafter
  have hafter' : after = before.withUnusable [] [] message [a] [b] bad := hafter
  have hfiles : after.stats.filesParsed + after.parseErrors.length = 3 := (hbalanced [a, bad, b]).files
  clear_value after before
  subst hafter'
  exact ⟨hbad, rfl, rfl, rfl, ⟨message, rfl⟩, hfiles⟩

end ContractMigration
