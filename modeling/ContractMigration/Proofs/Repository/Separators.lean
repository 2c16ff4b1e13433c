import ContractMigration.Proofs.Repository.Routes

/-! Imports with backslashes. The path that an import names does not depend on whether its separators are slashes or
backslashes. Whether it is relative and whether it is outside the repository are read off the text as it stands, so what
shows a sign of either kind in one spelling only is checked with different results. -/

namespace ContractMigration.Import

open ContractMigration.Path

variable {source target : String} {known prefixes : List String}

/-- The text with a slash for each backslash. -/
def slash (text : String) : String := String.ofList (slashed text.toList)

@[simp] theorem toList_slash (text : String) : (slash text).toList = slashed text.toList := String.toList_ofList

/-- The import begins with a dot segment. -/
def Dotted (target : String) : Prop := "./".toList <+: target.toList ∨ "../".toList <+: target.toList

/-- The import has a sign of an address or a package in it, or begins with one of the prefixes. -/
def Marked (target : String) (prefixes : List String) : Prop :=
  "://".toList <:+: target.toList ∨ "node_modules/".toList <:+: target.toList ∨ ∃ p ∈ prefixes, p.toList <+: target.toList

theorem isExternal_iff : isExternal target prefixes = true ↔ ¬Dotted target ∧ Marked target prefixes := by
  simp only [isExternal, Dotted, Marked, ← isRelative_iff, Bool.and_eq_true, Bool.not_eq_true', Bool.or_eq_true,
    Text.contains_iff, List.any_eq_true, Text.startsWith_iff, Bool.not_eq_true, or_assoc]

theorem Dotted.slash (h : Dotted target) : Dotted (slash target) := by
  rw [Dotted, toList_slash, ← isRelative_iff]
  exact isRelative_slashed (isRelative_iff.mpr h)

/-- Both spellings of an import name the same path. -/
theorem resolve_slash (source target : String) : resolve source (slash target) = resolve source target := by
  rw [resolve, resolveChars, toList_slash, slashed_slashed]
  rfl

/-- Two imports that name the same path are checked alike exactly if both are outside the repository or neither is. -/
theorem check_eq_check_iff {target' : String} (h : resolve source target' = resolve source target) :
    check source target' known prefixes = check source target known prefixes ↔
      (isExternal target' prefixes = true ↔ isExternal target prefixes = true) := by
  have hinside : ∀ path : String,
      (if known.contains path then Resolution.resolved path else .unresolved path) ≠ .external := by
    intro path
    split_ifs <;> nofun
  rw [check, check, h]
  split_ifs with hnew hold hold
  · exact iff_of_true rfl (iff_of_true hnew hold)
  · exact iff_of_false (hinside _).symm fun hiff => hold (hiff.mp hnew)
  · exact iff_of_false (hinside _) fun hiff => hnew (hiff.mpr hold)
  · exact iff_of_true rfl (iff_of_false hnew hold)

/-- An import and its spelling with slashes name the same path. They are checked alike exactly if a dot segment that the
slashes bring to light has no mark beside it, and, where there is no dot segment, the slashes neither make nor undo a mark. -/
theorem check_slash_iff (source target : String) (known prefixes : List String) :
    resolve source (slash target) = resolve source target ∧
      (check source (slash target) known prefixes = check source target known prefixes ↔
        (Dotted (slash target) → Dotted target ∨ ¬Marked target prefixes) ∧
          (¬Dotted (slash target) → (Marked (slash target) prefixes ↔ Marked target prefixes))) := by
  refine ⟨resolve_slash source target, ?_⟩
  rw [check_eq_check_iff (resolve_slash source target), isExternal_iff, isExternal_iff]
  have hdotted : Dotted target → Dotted (slash target) := Dotted.slash
  generalize Dotted (slash target) = dotted', Marked (slash target) prefixes = marked' at hdotted ⊢
  generalize Dotted target = dotted, Marked target prefixes = marked at hdotted ⊢
  tauto

/-- The directory of a package is not recognised behind a backslash, and the import is taken for a file. -/
theorem check_slash_package :
    slash "lib\\B.sol" = "lib/B.sol" ∧ check "src/A.sol" "lib/B.sol" [] externalPrefixes = .external ∧
      check "src/A.sol" "lib\\B.sol" [] externalPrefixes = .unresolved "lib/B.sol" := by
  decide

/-- A dot segment is not recognised before a backslash, and a known file is taken for a package. -/
example : check "src/A.sol" ".\\node_modules/B.sol" ["src/node_modules/B.sol"] externalPrefixes = .external ∧
    check "src/A.sol" "./node_modules/B.sol" ["src/node_modules/B.sol"] externalPrefixes =
      .resolved "src/node_modules/B.sol" := by
  decide

end ContractMigration.Import
