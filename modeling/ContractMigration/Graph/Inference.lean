import ContractMigration.Graph.Basic
import ContractMigration.Heuristic
import ContractMigration.Solidity.Unit

/-! The graph of a list of contracts, and what is inferred from it: which contracts are likely deployed, and which are
replaced behind a proxy. -/

namespace ContractMigration

/-- The edges of a contract: to its imports, then to its parents. -/
def ContractUnit.edges (u : ContractUnit) : List Edge :=
  u.imports.map (⟨u.name, ·, .import⟩) ++ u.inherits.map (⟨u.name, ·, .inheritance⟩)

/-- The graph of contracts: all names are declared before any edge is added. -/
def DependencyGraph.ofUnits (units : List ContractUnit) : DependencyGraph :=
  let declared := units.foldl (fun g u => g.declare u.name) DependencyGraph.empty
  (units.flatMap ContractUnit.edges).foldl DependencyGraph.addEdge declared

/-- The names of concrete contracts, once each. -/
def concreteNames (units : List ContractUnit) : List String :=
  firstSeen ((units.filter fun u => u.kind == .contract).map ContractUnit.name)

/-- The concrete contracts that are likely deployed: all but those that only serve as a base. -/
def inferEntryPoints (units : List ContractUnit) (g : DependencyGraph) : Heuristic (List String) :=
  let names := concreteNames units
  let excluded := names.filter g.isOnlyInherited
  let reason :=
    "name-based: concrete contracts, excluding pure bases that are inherited from and inherit nothing"
  .of (names.filter fun n => !g.isOnlyInherited n) 0.7
    (if excluded.isEmpty then reason else reason ++ "; excluded bases: " ++ Text.join ", " excluded)

/-- The contracts whose declaration holds one of the names used with proxies. -/
def inferUpgradeable (units : List ContractUnit) : Heuristic (List String) :=
  let marked := units.filter ContractUnit.usesUpgradeablePattern
  let markers := firstSeen (marked.flatMap ContractUnit.upgradeMarkers)
  let reason := "substring match against known proxy and initializer tokens"
  .of (firstSeen (marked.map ContractUnit.name)) 0.6
    (if markers.isEmpty then reason ++ "; none matched" else reason ++ ": " ++ Text.join ", " markers)

end ContractMigration
