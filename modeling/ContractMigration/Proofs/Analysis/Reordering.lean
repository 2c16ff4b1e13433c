import ContractMigration.Proofs.Analysis.Isolation
import ContractMigration.Proofs.Graph.Construction
import Mathlib.Data.List.Perm.Basic

/-! Sources in another order. What is known of a repository does not depend on the order in which its sources are handed
in: the contracts and the failures only change places, the graph has the same nodes and edges, the same names are inferred,
and all counts are equal. Names may be declared by several sources, as contracts of any kind; which of them comes first is
seen in no more than the order of the lists. -/

namespace ContractMigration

/-! ### Contracts in another order -/

section

variable {units units' : List ContractUnit}

theorem isPureBase_of_perm (h : units.Perm units') (name : String) : IsPureBase units name ↔ IsPureBase units' name := by
  simp only [IsPureBase, h.mem_iff]

theorem countKind_of_perm (h : units.Perm units') (k : ContractKind) : countKind units k = countKind units' k :=
  (h.filter _).length_eq

theorem total_of_perm {counts counts' : List Nat} (h : counts.Perm counts') : total counts = total counts' :=
  h.foldr_eq 0

theorem perm_entryPoints (h : units.Perm units') :
    (inferEntryPoints units (.ofUnits units)).value.Perm (inferEntryPoints units' (.ofUnits units')).value := by
  have hnames : (concreteNames units).Perm (concreteNames units') :=
    perm_firstSeen fun _ => ((h.filter _).map _).mem_iff
  have hbases : (DependencyGraph.ofUnits units).isOnlyInherited = (DependencyGraph.ofUnits units').isOnlyInherited := by
    funext name
    rw [Bool.eq_iff_iff, DependencyGraph.isOnlyInherited_ofUnits, DependencyGraph.isOnlyInherited_ofUnits,
      isPureBase_of_perm h]
  show ((concreteNames units).filter fun n => !(DependencyGraph.ofUnits units).isOnlyInherited n).Perm
    ((concreteNames units').filter fun n => !(DependencyGraph.ofUnits units').isOnlyInherited n)
  rw [hbases]
  exact hnames.filter _

theorem perm_upgradeable (h : units.Perm units') : (inferUpgradeable units).value.Perm (inferUpgradeable units').value :=
  perm_firstSeen fun _ => ((h.filter _).map _).mem_iff

namespace DependencyGraph

theorem perm_declared (h : units.Perm units') : (ofUnits units).declared.Perm (ofUnits units').declared := by
  rw [declared_ofUnits, declared_ofUnits]
  exact perm_firstSeen fun _ => (h.map _).mem_iff

theorem perm_edges (h : units.Perm units') : (ofUnits units).edges.Perm (ofUnits units').edges := by
  rw [edges_ofUnits, edges_ofUnits]
  exact perm_firstSeen fun _ => (h.flatMap_right _).mem_iff

theorem perm_unresolved (h : units.Perm units') : (ofUnits units).unresolved.Perm (ofUnits units').unresolved := by
  rw [unresolved_ofUnits, unresolved_ofUnits]
  refine perm_firstSeen fun n => ?_
  simp only [mem_strangers, h.mem_iff]

theorem perm_nodes (h : units.Perm units') : (ofUnits units).nodes.Perm (ofUnits units').nodes := by
  rw [nodes_ofUnits, nodes_ofUnits, ← unresolved_ofUnits, ← unresolved_ofUnits]
  exact (perm_declared h).append (perm_unresolved h)

theorem edgeCount_of_perm (h : units.Perm units') (k : EdgeKind) : (ofUnits units).edgeCount k = (ofUnits units').edgeCount k :=
  ((perm_edges h).filter _).length_eq

end DependencyGraph

end

/-! ### Sources in another order -/

/-- Two analyses say the same, up to the order in which they list it and the time that they took. -/
structure Analysis.SameUpToOrder (a b : Analysis) : Prop where
  contracts : a.contracts.Perm b.contracts
  parseErrors : a.parseErrors.Perm b.parseErrors
  nodes : a.graph.nodes.Perm b.graph.nodes
  declared : a.graph.declared.Perm b.graph.declared
  edges : a.graph.edges.Perm b.graph.edges
  unresolved : a.graph.unresolved.Perm b.graph.unresolved
  entryPoints : a.entryPoints.value.Perm b.entryPoints.value
  upgradeable : a.upgradeable.value.Perm b.upgradeable.value
  stats : { a.stats with elapsedMs := b.stats.elapsedMs } = b.stats

/-- The order of sources does not change what an analysis says of them. -/
theorem sameUpToOrder_of_perm {inputs inputs' : List SourceInput} (h : inputs.Perm inputs') (key : Key)
    (filesScanned : Nat) (options : AnalysisOptions) (clock clock' : Clocked) :
    (analyze key filesScanned inputs options clock).SameUpToOrder (analyze key filesScanned inputs' options clock') := by
  have houtcomes := h.map fun i => (i.path, i.extract options.maxSourceBytes)
  have hfiles : (parsedFiles _).Perm (parsedFiles _) := houtcomes.filterMap _
  have hcontracts := hfiles.flatMap_right Solidity.ExtractedFile.contracts
  have hupgradeable := perm_upgradeable hcontracts
  refine ⟨hcontracts, houtcomes.filterMap _, DependencyGraph.perm_nodes hcontracts, DependencyGraph.perm_declared hcontracts,
    DependencyGraph.perm_edges hcontracts, DependencyGraph.perm_unresolved hcontracts, perm_entryPoints hcontracts,
    hupgradeable, ?_⟩
  simp only [analyze, hfiles.length_eq, h.length_eq, countKind_of_perm hcontracts, total_of_perm (hcontracts.map _),
    DependencyGraph.edgeCount_of_perm hcontracts, (DependencyGraph.perm_unresolved hcontracts).length_eq,
    hupgradeable.length_eq]

/-- A name is declared by two sources, as an interface and as a contract behind a proxy, and a third source is missing. Turned
round, the sources give the same, with the names in another order. -/
theorem sameUpToOrder_of_perm_vaults :
    let a : SourceInput := ⟨"a.sol", .ok "contract Safe is Vault \x7b\x7d interface Vault \x7b\x7d"⟩
    let b : SourceInput := ⟨"b.sol",
      .ok "import './a.sol'; contract Vault is Owned \x7b function upgradeTo(address to) external \x7b\x7d \x7d"⟩
    let c : SourceInput := ⟨"c.sol", .error "timeout"⟩
    let before := analyze ⟨"acme", "vaults"⟩ 3 [a, b, c] ⟨4, 1000⟩ ⟨⟨0, 0⟩, 0⟩
    let after := analyze ⟨"acme", "vaults"⟩ 3 [c, b, a] ⟨4, 1000⟩ ⟨⟨0, 0⟩, 1⟩
    [a, b, c].Perm [c, b, a] ∧ before.SameUpToOrder after ∧
      before.graph.nodes = ["Safe", "Vault", "./a.sol", "Owned"] ∧
      after.graph.nodes = ["Vault", "Safe", "./a.sol", "Owned"] ∧
      before.entryPoints.value = ["Safe", "Vault"] ∧ after.entryPoints.value = ["Vault", "Safe"] := by
  intro a b c before after
  have hperm : [a, b, c].Perm [c, b, a] := (List.reverse_perm [a, b, c]).symm
  exact ⟨hperm, sameUpToOrder_of_perm hperm _ _ _ _ _, by decide +kernel⟩

end ContractMigration
