import ContractMigration.Proofs.Report.Exactness
import Mathlib.Data.List.Sort

/-! Reports in a larger context. What is wrong with a file is that something is not known and not allowed, so it can only
become less when more contracts are known, when more files are checked along with it, and when the rules allow more; what
remains stays where it was. -/

namespace ContractMigration

open Solidity (ExtractedFile)

variable {contracts contracts' : List ContractUnit} {files files' : List ExtractedFile} {rules rules' : ConsistencyRules}
  {found found' : List (Spot × Issue)}

/-! ### What is known and allowed -/

/-- One context has all contracts, all files and all rules of another one. -/
structure Widens (contracts contracts' : List ContractUnit) (files files' : List ExtractedFile)
    (rules rules' : ConsistencyRules) : Prop where
  contracts : contracts ⊆ contracts'
  files : files ⊆ files'
  prefixes : rules.importPrefixes ⊆ rules'.importPrefixes
  names : rules.parentNames ⊆ rules'.parentNames

namespace Widens

variable (h : Widens contracts contracts' files files' rules rules')
include h

theorem declared {name : String} (hname : Declared contracts files name) : Declared contracts' files' name :=
  hname.imp (fun ⟨u, hu, heq⟩ => ⟨u, h.contracts hu, heq⟩) fun ⟨f, hf, hu⟩ => ⟨f, h.files hf, hu⟩

theorem knownPath {path : String} (hpath : KnownPath contracts files path) : KnownPath contracts' files' path :=
  hpath.imp (fun ⟨u, hu, heq⟩ => ⟨u, h.contracts hu, heq⟩) fun ⟨f, hf, heq⟩ => ⟨f, h.files hf, heq⟩

theorem leadsOut {target : String} (htarget : LeadsOut rules.importPrefixes target) : LeadsOut rules'.importPrefixes target :=
  htarget.imp_right <| Or.imp_right <| Or.imp_right fun ⟨p, hp, htarget⟩ => ⟨p, h.prefixes hp, htarget⟩

theorem stray {source target : String} (hstray : Stray contracts' files' rules' source target) :
    Stray contracts files rules source target :=
  ⟨mt h.leadsOut hstray.1, mt h.knownPath hstray.2⟩

theorem orphan {parent : String} (horphan : Orphan contracts' files' rules' parent) :
    Orphan contracts files rules parent := by
  obtain ⟨last, hlast, hwhole, hsimple, hinterface, hnames⟩ := horphan
  exact ⟨last, hlast, mt h.declared hwhole, mt h.declared hsimple, hinterface, fun p hp => hnames p (h.names hp)⟩

/-- What is wrong in the larger context at a spot of a file that both have is wrong in the smaller one. -/
theorem offends {spot : Spot} {issue : Issue} (hfile : files[spot.file]? = files'[spot.file]?)
    (hoffends : Offends contracts' files' rules' spot issue) : Offends contracts files rules spot issue := by
  cases spot with
  | imported n i =>
    obtain ⟨f, target, hf, ht, hstray, hissue⟩ := hoffends
    exact ⟨f, target, hfile.trans hf, ht, h.stray hstray, hissue⟩
  | inherited n c i =>
    obtain ⟨f, u, parent, hf, hu, hp, horphan, hissue⟩ := hoffends
    exact ⟨f, u, parent, hfile.trans hf, hu, hp, h.orphan horphan, hissue⟩

end Widens

/-! ### Reports -/

/-- The issues of a report, each at its spot and in the order of the spots. -/
structure Reported (contracts : List ContractUnit) (files : List ExtractedFile) (rules : ConsistencyRules)
    (found : List (Spot × Issue)) : Prop where
  issues : (validateExtracted contracts files rules).issues = found.map fun x => x.2.message
  ordered : found.Pairwise fun x y => x.1.Before y.1
  exact : ∀ spot issue, (spot, issue) ∈ found ↔ Offends contracts files rules spot issue

theorem reported_numbered (contracts : List ContractUnit) (files : List ExtractedFile) (rules : ConsistencyRules) :
    Reported contracts files rules (numbered files (fileAt (.of contracts files) rules)) where
  issues := by
    have hissues : (numbered files (fileAt (.of contracts files) rules)).map Prod.snd = structuralIssues contracts files rules :=
      map_numbered files fun _ _ => map_fileAt
    rw [validateExtracted_eq, ← hissues, List.map_map]
    rfl
  ordered := pairwise_numbered files (fun _ _ => pairwise_fileAt) fun n m f g hlt x hx y hy =>
    Spot.before_of_file_lt (by rwa [file_of_mem_fileAt hx, file_of_mem_fileAt hy])
  exact _ _ := mem_spots_iff

theorem Spot.Before.asymm {p q : Spot} (h : p.Before q) : ¬q.Before p := by
  cases p <;> cases q <;> simp only [Spot.Before] at h ⊢ <;> omega

/-- Issues in order that are all among others in order are part of these in their order. -/
theorem sublist_of_ordered (hfound : found.Pairwise fun x y => x.1.Before y.1)
    (hfound' : found'.Pairwise fun x y => x.1.Before y.1) (h : found' ⊆ found) : found'.Sublist found := by
  have : Std.Irrefl fun x y : Spot × Issue => x.1.Before y.1 := ⟨fun x hx => hx.asymm hx⟩
  have : Std.Antisymm fun x y : Spot × Issue => x.1.Before y.1 := ⟨fun x y hxy hyx => absurd hyx hxy.asymm⟩
  exact List.sublist_of_subperm_of_pairwise (List.subperm_of_subset hfound'.nodup h) hfound' hfound

/-- In a larger context the issues of the files that were there before are some of those before, at the same spots. -/
theorem Reported.sublist (h : Reported contracts files rules found) (h' : Reported contracts' files' rules' found')
    (hwider : Widens contracts contracts' files files' rules rules') (hfiles : files <+: files') :
    (found'.filter fun x => x.1.file < files.length).Sublist found := by
  refine sublist_of_ordered h.ordered (h'.ordered.filter _) ?_
  rintro ⟨spot, issue⟩ hmem
  obtain ⟨hmem, hlt⟩ := List.mem_filter.mp hmem
  obtain ⟨more, rfl⟩ := hfiles
  have hfile : files[spot.file]? = (files ++ more)[spot.file]? :=
    (List.getElem?_append_left (of_decide_eq_true hlt)).symm
  exact (h.exact spot issue).mpr (hwider.offends hfile ((h'.exact spot issue).mp hmem))

/-- Each file keeps at most the issues it has, in their order and at their spots, when more files are checked behind it, when
the analysis has more contracts, and when the rules allow more; and a report on the same files keeps at most its issues. -/
theorem issues_in_context (a a' : Analysis) (files more : List ExtractedFile) (rules rules' : ConsistencyRules)
    (hcontracts : a.contracts ⊆ a'.contracts) (hprefixes : rules.importPrefixes ⊆ rules'.importPrefixes)
    (hnames : rules.parentNames ⊆ rules'.parentNames) :
    (∃ found found', Reported a.contracts files rules found ∧ Reported a'.contracts (files ++ more) rules' found' ∧
      (found'.filter fun x => x.1.file < files.length).Sublist found) ∧
    (validateExtracted a.contracts files rules').issues.Sublist (validateExtracted a.contracts files rules).issues := by
  have hreported := reported_numbered a.contracts files rules
  refine ⟨⟨_, _, hreported, reported_numbered a'.contracts (files ++ more) rules', ?_⟩, ?_⟩
  · exact hreported.sublist (reported_numbered ..) ⟨hcontracts, List.subset_append_left files more, hprefixes, hnames⟩
      (List.prefix_append files more)
  · have hreported' := reported_numbered a.contracts files rules'
    have hwider : Widens a.contracts a.contracts files files rules rules' :=
      ⟨List.Subset.refl _, List.Subset.refl _, hprefixes, hnames⟩
    rw [hreported.issues, hreported'.issues]
    refine (sublist_of_ordered hreported.ordered hreported'.ordered fun x hx => ?_).map _
    exact (hreported.exact x.1 x.2).mpr (hwider.offends rfl ((hreported'.exact x.1 x.2).mp hx))

/-- Of the four issues of a file one is left, as one import leads to a further file, another one has become external, and one
parent is declared in the larger analysis. -/
theorem issues_in_context_vault :
    let declaration (name path : String) (parents : List String) : ContractUnit :=
      ⟨name, .contract, path, [], parents, [], [], false, []⟩
    let analysis (contracts : List ContractUnit) : Analysis := ⟨⟨"acme", "vaults"⟩, contracts, ⟨[], [], []⟩, ⟨[], 0, ""⟩,
      ⟨[], 0, ""⟩, ⟨0, 0, 0, 0, 0, 0, 0, 0, 0, 0, 0, 0, 0, 0⟩, [], [], "", ⟨0, 0⟩⟩
    let vault : ExtractedFile :=
      ⟨"src/Vault.sol", ["./Limits.sol", "lib/Gone.sol"], [declaration "Vault" "src/Vault.sol" ["Base", "Owned"]]⟩
    let limits : ExtractedFile := ⟨"src/Limits.sol", [], []⟩
    let base := [declaration "Base" "src/Base.sol" []]
    (analysis []).contracts ⊆ (analysis base).contracts ∧
      (validateExtracted [] [vault] ⟨[], []⟩).issues.length = 4 ∧
      (validateExtracted base [vault, limits] ⟨["lib/"], []⟩).issues =
        ["src/Vault.sol: contract Vault inherits Owned, which is not declared"] ∧
      ∃ found found', Reported [] [vault] ⟨[], []⟩ found ∧ Reported base [vault, limits] ⟨["lib/"], []⟩ found' ∧
        (found'.filter fun x => x.1.file < 1).Sublist found := by
  intro declaration analysis vault limits base
  refine ⟨List.nil_subset _, by decide +kernel, by decide +kernel, ?_⟩
  exact (issues_in_context (analysis []) (analysis base) [vault] [limits] ⟨[], []⟩ ⟨["lib/"], []⟩ (List.nil_subset _)
    (List.nil_subset _) (List.nil_subset _)).1

end ContractMigration
