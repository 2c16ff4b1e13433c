import ContractMigration.Proofs.Report.Issues
import ContractMigration.Proofs.Text.Affixes

/-! What files that are checked have to satisfy, without the functions that check it: which imports lead out of the
repository, which names a parent may have, and when an import or a parent is wrong. -/

namespace ContractMigration

open Solidity (ExtractedFile)

/-! ### The rules -/

/-- `last` is the part of a dotted name behind its last dot. -/
def IsLastPart (name last : String) : Prop := '.' ∉ last.toList ∧ (name = last ∨ ∃ front, name = front ++ "." ++ last)

/-- The names of interfaces: `I` and a capital letter. -/
def InterfaceName (name : String) : Prop := ∃ c rest, name.toList = 'I' :: c :: rest ∧ 'A' ≤ c ∧ c ≤ 'Z'

/-- A pattern with a star in front gives the end of a name, one with a star only at its end gives the beginning, and
any other one the name. -/
def Fits (name pattern : String) : Prop :=
  (∃ suffix, pattern.toList = '*' :: suffix ∧ suffix <:+ name.toList) ∨
  (∃ start, pattern.toList = start ++ ['*'] ∧ ¬['*'] <+: pattern.toList ∧ start <+: name.toList) ∨
  (¬['*'] <+: pattern.toList ∧ ¬['*'] <:+ pattern.toList ∧ name = pattern)

/-- An import names a package or an address. -/
def LeadsOut (prefixes : List String) (target : String) : Prop :=
  (¬"./".toList <+: target.toList ∧ ¬"../".toList <+: target.toList) ∧
  ("://".toList <:+: target.toList ∨ "node_modules/".toList <:+: target.toList ∨
    ∃ p ∈ prefixes, p.toList <+: target.toList)

variable {name last pattern target : String}

theorem simpleName_eq_iff : simpleName name = last ↔ IsLastPart name last := by
  have hsegments : ∃ l, (Text.segments '.' name.toList).getLast? = some l := by
    rw [← Option.isSome_iff_exists, List.getLast?_isSome, Text.segments_eq_splitOn]
    exact List.splitOn_ne_nil _ _
  obtain ⟨l, hl⟩ := hsegments
  have hsimple : simpleName name = String.ofList l := by simp [simpleName, hl]
  have hname : IsLastPart name last ↔ (Text.segments '.' name.toList).getLast? = some last.toList := by
    rw [Text.getLast?_segments, IsLastPart]
    refine and_congr_right fun _ => or_congr String.toList_inj.symm ⟨?_, ?_⟩
    · rintro ⟨front, rfl⟩
      exact ⟨front.toList, by simp⟩
    · rintro ⟨front, h⟩
      exact ⟨String.ofList front, by simp [← String.toList_inj, h]⟩
  rw [hname, hl, hsimple, Option.some.injEq, ← String.toList_inj, String.toList_ofList]

theorem isInterfaceName_iff : isInterfaceName name.toList = true ↔ InterfaceName name := by
  unfold InterfaceName isInterfaceName
  split
  · next c rest h =>
    have hupper : c.isUpper = decide ('A' ≤ c ∧ c ≤ 'Z') := rfl
    simp [h, hupper]
  · next h => simpa using fun c rest hc => absurd hc (h c rest)

theorem fitsPattern_iff : fitsPattern name pattern = true ↔ Fits name pattern := by
  unfold fitsPattern Fits
  cases hstart : Text.stripStart? ['*'] pattern.toList with
  | some suffix =>
    rw [Text.stripStart?_eq_some_iff] at hstart
    simp [hstart, Text.endsWith_iff]
  | none =>
    have hstar : ¬['*'] <+: pattern.toList := Text.stripStart?_eq_none_iff.1 hstart
    have hfirst : ∀ suffix, pattern.toList ≠ '*' :: suffix := fun suffix h => hstar ⟨suffix, h.symm⟩
    cases hend : Text.stripEnd? ['*'] pattern.toList with
    | some start =>
      rw [Text.stripEnd?_eq_some_iff] at hend
      simp only [hend] at hstar hfirst
      simp [hstar, hfirst, hend, Text.startsWith_iff]
    | none =>
      have hlast : ¬['*'] <:+ pattern.toList := Text.stripEnd?_eq_none_iff.1 hend
      have hend' : ∀ start, pattern.toList ≠ start ++ ['*'] := fun start h => hlast ⟨start, h.symm⟩
      simp [hstar, hfirst, hlast, hend']

theorem isExternalParent_iff {patterns : List String} (hlast : IsLastPart name last) :
    isExternalParent name patterns = true ↔ InterfaceName last ∨ ∃ p ∈ patterns, Fits last p := by
  simp only [isExternalParent, simpleName_eq_iff.2 hlast, Bool.or_eq_true, isInterfaceName_iff, List.any_eq_true,
    fitsPattern_iff]

theorem isExternal_iff {prefixes : List String} : Import.isExternal target prefixes = true ↔ LeadsOut prefixes target := by
  simp only [Import.isExternal, Import.isRelative, LeadsOut, Bool.and_eq_true, Bool.or_eq_true, Bool.not_eq_true',
    List.any_eq_true, Text.startsWith_iff, Text.contains_iff, ← Bool.not_eq_true, not_or, or_assoc]

/-! ### What is wrong -/

section Offences
variable (contracts : List ContractUnit) (files : List ExtractedFile) (rules : ConsistencyRules)

/-- A name is declared in the analysis or in a file. -/
def Declared (name : String) : Prop :=
  (∃ u ∈ contracts, u.name = name) ∨ ∃ f ∈ files, ∃ u ∈ f.contracts, u.name = name

/-- A path is that of a contract of the analysis or of a file. -/
def KnownPath (path : String) : Prop := (∃ u ∈ contracts, u.filePath = path) ∨ ∃ f ∈ files, f.filePath = path

/-- An import stays in the repository and leads to no known path. -/
def Stray (source target : String) : Prop :=
  ¬LeadsOut rules.importPrefixes target ∧ ¬KnownPath contracts files (Import.resolve source target)

/-- A parent is declared by neither its name nor the last part of it, which no rule allows either. -/
def Orphan (parent : String) : Prop :=
  ∃ last, IsLastPart parent last ∧ ¬Declared contracts files parent ∧ ¬Declared contracts files last ∧
    ¬InterfaceName last ∧ ∀ pattern ∈ rules.parentNames, ¬Fits last pattern

variable {contracts files rules}

theorem stray_iff {source target : String} :
    Stray contracts files rules source target ↔ ¬(Known.of contracts files).Leads rules source target := by
  have hpath : KnownPath contracts files (Import.resolve source target) ↔
      Import.resolve source target ∈ (Known.of contracts files).paths := by simp [KnownPath, Known.of]
  rw [Stray, Known.Leads, not_or, isExternal_iff, hpath]

theorem declared_iff {name : String} : Declared contracts files name ↔ name ∈ (Known.of contracts files).names := by
  simp [Declared, Known.of]

theorem orphan_iff {parent : String} :
    Orphan contracts files rules parent ↔ ¬(Known.of contracts files).Admits rules parent := by
  have hlast : IsLastPart parent (simpleName parent) := simpleName_eq_iff.1 rfl
  have hadmits : (Known.of contracts files).Admits rules parent ↔ (Declared contracts files parent ∨
      Declared contracts files (simpleName parent)) ∨ InterfaceName (simpleName parent) ∨
        ∃ p ∈ rules.parentNames, Fits (simpleName parent) p := by
    simp [Known.Admits, Known.declares, isExternalParent_iff hlast, declared_iff]
  rw [hadmits, Orphan]
  constructor
  · rintro ⟨last, h, hrest⟩
    obtain rfl := simpleName_eq_iff.2 h
    simpa [not_or, and_assoc] using hrest
  · intro h
    exact ⟨simpleName parent, hlast, by simpa [not_or, and_assoc] using h⟩

end Offences

end ContractMigration
