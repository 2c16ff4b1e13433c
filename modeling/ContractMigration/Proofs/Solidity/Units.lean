import ContractMigration.Proofs.Solidity.Extraction
import ContractMigration.Proofs.Solidity.Places
import Mathlib.Data.List.Nodup

/-! What holds of all contracts that are extracted. Lists of names have neither repetitions nor empty names, functions can be
called by others, the names that hint at a proxy are those that appear, and all stands in the order of the source. -/

namespace ContractMigration

theorem Visibility.isExposed_iff {v : Visibility} : v.isExposed = true ↔ v = .pub ∨ v = .external := by
  cases v <;> decide

namespace Solidity

variable {t d : Tree} {trees rest : List Tree}

/-! ### Names -/

theorem distinct_foldl {names acc : List String} (hnodup : acc.Nodup) (hempty : "" ∉ acc) :
    (names.foldl addNew acc).Nodup ∧ "" ∉ names.foldl addNew acc := by
  induction names generalizing acc with
  | nil => exact ⟨hnodup, hempty⟩
  | cons n names ih =>
    rw [List.foldl_cons, addNew]
    split_ifs with h
    · exact ih hnodup hempty
    · rw [not_or] at h
      refine ih (List.nodup_append.mpr ⟨hnodup, List.nodup_singleton n, fun m hm k hk hmk => ?_⟩) ?_
      · rw [List.mem_singleton] at hk
        exact h.2 (hk ▸ hmk ▸ hm)
      · simp [hempty, Ne.symm h.1]

theorem nodup_distinct (names : List String) : (distinct names).Nodup := (distinct_foldl .nil List.not_mem_nil).1

theorem empty_notMem_distinct (names : List String) : "" ∉ distinct names := (distinct_foldl .nil List.not_mem_nil).2

theorem mem_parentName {specifier : String} {c : Char} (h : c ∈ (parentName specifier).toList) :
    c ≠ '(' ∧ Text.isBlank c = false := by
  rw [parentName, String.toList_ofList, List.mem_filter, Bool.not_eq_true'] at h
  have hc := List.mem_takeWhile_imp h.1
  exact ⟨by simpa using hc, h.2⟩

/-- A name of a parent: not empty, without white space, and before any argument. -/
structure IsParentName (name : String) : Prop where
  nonempty : name ≠ ""
  characters : ∀ c ∈ name.toList, c ≠ '(' ∧ Text.isBlank c = false

theorem isParentName_of_mem_parents {name : String} (h : name ∈ parents t) : IsParentName name := by
  refine ⟨fun hname => empty_notMem_distinct _ (hname ▸ h), ?_⟩
  obtain ⟨u, -, rfl⟩ := List.mem_map.mp (mem_distinct h)
  exact fun c => mem_parentName

/-! ### Members -/

/-- A tree is a function that others can call, and this is its signature. -/
def IsFunction (t : Tree) (f : FunctionSignature) : Prop := t.phrase? = some .function ∧ signature? t = some f

/-- A tree is a state variable, and this is what is known of it. -/
def IsStateVariable (t : Tree) (v : StateVariable) : Prop := t.phrase? = some .stateVariable ∧ stateVariable? t = some v

theorem isExposed_of_signature? {f : FunctionSignature} (h : signature? t = some f) :
    f.visibility = .pub ∨ f.visibility = .external := by
  rw [signature?] at h
  obtain ⟨name, -, h⟩ := Option.bind_eq_some_iff.mp h
  dsimp only at h
  split_ifs at h with hif
  · cases h
  · obtain rfl := Option.some.inj h
    rw [Bool.not_eq_true, Bool.or_eq_false_iff, Bool.not_eq_false'] at hif
    exact Visibility.isExposed_iff.mp hif.2

/-- The walk finds functions and state variables in the order of the source: it goes on with the parts of a tree in front of
what comes behind the tree, and that is how they stand there. -/
theorem listed_collect (trees : List Tree) :
    Listed IsFunction trees (collect trees).functions ∧ Listed IsStateVariable trees (collect trees).stateVariables := by
  fun_induction collect trees with
  | case1 => exact ⟨.nil _ _, .nil _ _⟩
  | case2 v rest ih => exact ⟨ih.1.behind _, ih.2.behind _⟩
  | case3 rest ts ih => exact ⟨ih.1.option fun f hf => ⟨rfl, hf⟩, ih.2.behind _⟩
  | case4 rest ts ih => exact ⟨ih.1.behind _, ih.2.option fun v hv => ⟨rfl, hv⟩⟩
  | case5 rest p ts hfunction hvariable hclosed ih => exact ⟨ih.1.behind _, ih.2.behind _⟩
  | case6 rest p ts hfunction hvariable hopen ih => exact ⟨ih.1.opened, ih.2.opened⟩

/-! ### Declarations -/

/-- What a unit tells of a declaration in a file with these imports. -/
structure Depicts (path : String) (imports : List String) (d : Tree) (u : ContractUnit) : Prop where
  kind : contractKind? d = some u.kind
  name : d.childText? .name = some u.name ∧ u.name ≠ ""
  filePath : u.filePath = path
  imports : u.imports = imports
  parents : u.inherits.Nodup ∧ ∀ name ∈ u.inherits, IsParentName name
  exposed : ∀ f ∈ u.functions, f.visibility = .pub ∨ f.visibility = .external
  functions : Listed IsFunction [d] u.functions
  stateVariables : Listed IsStateVariable [d] u.stateVariables
  markers : u.upgradeMarkers.Sublist upgradeTokens
  mem_markers : ∀ name, name ∈ u.upgradeMarkers ↔ name ∈ upgradeTokens ∧ name.toList <:+: d.text.toList
  upgradeTo : "upgradeToAndCall" ∈ u.upgradeMarkers → "upgradeTo" ∈ u.upgradeMarkers
  upgradeable : u.usesUpgradeablePattern = true ↔ u.upgradeMarkers ≠ []

theorem mem_upgradeMarkers {declaration name : String} :
    name ∈ upgradeMarkers declaration ↔ name ∈ upgradeTokens ∧ name.toList <:+: declaration.toList := by
  rw [upgradeMarkers, List.mem_filter, Text.contains_iff]

/-- Where the longer name appears, the shorter one does. -/
theorem upgradeTo_mem {declaration : String} (h : "upgradeToAndCall" ∈ upgradeMarkers declaration) :
    "upgradeTo" ∈ upgradeMarkers declaration := by
  rw [mem_upgradeMarkers] at h ⊢
  have hprefix : "upgradeTo".toList <+: "upgradeToAndCall".toList := by decide
  exact ⟨by decide, hprefix.isInfix.trans h.2⟩

theorem depicts_of_unitOf? {path : String} {imports : List String} {u : ContractUnit}
    (h : unitOf? path imports d = some u) : Depicts path imports d u := by
  rw [unitOf?] at h
  obtain ⟨kind, hkind, h⟩ := Option.bind_eq_some_iff.mp h
  obtain ⟨name, hname, h⟩ := Option.bind_eq_some_iff.mp h
  dsimp only at h
  split_ifs at h with hempty
  · cases h
  obtain rfl := Option.some.inj h
  have hlisted := listed_collect [d]
  refine ⟨hkind, ⟨hname, hempty⟩, rfl, rfl, ⟨nodup_distinct _, fun _ => isParentName_of_mem_parents⟩, fun f hf => ?_,
    hlisted.1, hlisted.2, List.filter_sublist, fun _ => mem_upgradeMarkers, upgradeTo_mem, ?_⟩
  · obtain ⟨t, ht⟩ := hlisted.1.exists_of_mem hf
    exact isExposed_of_signature? ht.2
  · simp

/-- What a source declares: no import twice and none without a name, and one unit after the other in the order of the source.
Places count from the beginning of the source, and those of members from the beginning of their declaration. -/
theorem extract_depicts {path source : String} {f : ExtractedFile} (h : extract path source = .ok f) :
    f.filePath = path ∧ f.imports.Nodup ∧ "" ∉ f.imports ∧ ∃ trees, parse? source = some trees ∧
      (∀ n d m t, Stands trees n d → Stands [d] m t →
        spelled t.tokens <+: source.toList.drop (n + m) ∧ t.text.toList <:+ spelled t.tokens) ∧
      Listed (Depicts path f.imports) trees f.contracts := by
  unfold extract at h
  split at h
  · next trees htrees =>
    obtain rfl := Except.ok.inj h
    exact ⟨rfl, nodup_distinct _, empty_notMem_distinct _, trees, htrees,
      fun n d m t hd ht => ⟨Stands.isPrefix_drop htrees (hd.trans ht), text_isSuffix t⟩,
      (Listed.filterMap _ trees).imp fun t u => depicts_of_unitOf?⟩
  · cases h

/-- A parent that is named twice and one with arguments, and a function without a word on who can call it. -/
theorem extract_depicts_vault :
    let source := "contract Vault is Base, lib . Base(1), Base \x7b uint total; function upgradeTo(); \x7d"
    let f : ExtractedFile := ⟨"src/Vault.sol", [], [⟨"Vault", .contract, "src/Vault.sol", [], ["Base", "lib.Base"],
      [⟨"upgradeTo", .pub, none, 0, 0⟩], [⟨"total", "uint", .internal, false, false⟩], true, ["upgradeTo"]⟩]⟩
    extract "src/Vault.sol" source = .ok f ∧ ∃ trees, parse? source = some trees ∧
      Listed (Depicts "src/Vault.sol" f.imports) trees f.contracts := by
  intro source f
  have hf : (extract "src/Vault.sol" source).toOption = some f := by decide +kernel
  have h : extract "src/Vault.sol" source = .ok f := by
    cases hextract : extract "src/Vault.sol" source with
    | error e =>
      rw [hextract] at hf
      cases hf
    | ok g =>
      rw [hextract] at hf
      rw [Option.some.inj hf]
  obtain ⟨-, -, -, trees, htrees, -, hunits⟩ := extract_depicts h
  exact ⟨h, trees, htrees, hunits⟩

end Solidity

end ContractMigration
