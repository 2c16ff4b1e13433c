import ContractMigration.Proofs.Graph.EntryPoints

/-! The graph of a list of contracts. Declared are the names of the contracts, the edges are those of the contracts, and
the other nodes are the targets that no contract declares; each of the three lists has its elements once, in the order in
which they first occur. All edges start at a declared name, so the other nodes only ever are targets. -/

namespace ContractMigration

/-- What a contract refers to: its imports, then its parents. -/
def ContractUnit.references (u : ContractUnit) : List String := u.imports ++ u.inherits

theorem ContractUnit.map_target_edges (u : ContractUnit) : u.edges.map Edge.target = u.references := by
  simp [edges, references, Function.comp_def]

theorem ContractUnit.source_of_mem_edges {u : ContractUnit} {e : Edge} (he : e ∈ u.edges) : e.source = u.name := by
  rcases List.mem_append.mp he with he | he
  · obtain ⟨target, -, rfl⟩ := List.mem_map.mp he
    rfl
  · obtain ⟨target, -, rfl⟩ := List.mem_map.mp he
    rfl

namespace DependencyGraph

/-! ### Nodes -/

theorem declared_foldl_declare (g : DependencyGraph) (units : List ContractUnit) :
    (units.foldl (fun g u => g.declare u.name) g).declared = (units.map ContractUnit.name).foldl insertNew g.declared := by
  induction units generalizing g with
  | nil => rfl
  | cons u rest ih => rw [List.foldl_cons, ih]; rfl

theorem nodes_foldl_declare (g : DependencyGraph) (units : List ContractUnit) :
    (units.foldl (fun g u => g.declare u.name) g).nodes = (units.map ContractUnit.name).foldl insertNew g.nodes := by
  induction units generalizing g with
  | nil => rfl
  | cons u rest ih => rw [List.foldl_cons, ih]; rfl

theorem declared_foldl_addEdge (g : DependencyGraph) (es : List Edge) :
    (es.foldl addEdge g).declared = g.declared := by
  induction es generalizing g with
  | nil => rfl
  | cons e rest ih => rw [List.foldl_cons, ih]; rfl

theorem nodes_foldl_addEdge (g : DependencyGraph) (es : List Edge) :
    (es.foldl addEdge g).nodes = (es.flatMap fun e => [e.source, e.target]).foldl insertNew g.nodes := by
  induction es generalizing g with
  | nil => rfl
  | cons e rest ih => rw [List.foldl_cons, ih]; rfl

variable (units : List ContractUnit)

theorem declared_ofUnits : (ofUnits units).declared = firstSeen (units.map ContractUnit.name) := by
  rw [ofUnits, declared_foldl_addEdge, declared_foldl_declare]
  rfl

theorem source_mem_names {e : Edge} (he : e ∈ units.flatMap ContractUnit.edges) :
    e.source ∈ units.map ContractUnit.name := by
  obtain ⟨u, hu, he⟩ := List.mem_flatMap.mp he
  exact List.mem_map.mpr ⟨u, hu, (ContractUnit.source_of_mem_edges he).symm⟩

/-- Of the ends of edges that start in a list, the targets alone are not in it. -/
theorem filter_ends {names : List String} {es : List Edge} (hes : ∀ e ∈ es, e.source ∈ names) :
    (es.flatMap fun e => [e.source, e.target]).filter (· ∉ names) = (es.map Edge.target).filter (· ∉ names) := by
  induction es with
  | nil => rfl
  | cons e rest ih =>
    rw [List.forall_mem_cons] at hes
    rw [List.flatMap_cons, List.filter_append, ih hes.2, List.map_cons]
    by_cases ht : e.target ∈ names <;> simp [hes.1, ht]

/-- The targets that no contract declares, with repetitions. -/
def strangers : List String :=
  (units.flatMap ContractUnit.references).filter (· ∉ units.map ContractUnit.name)

theorem mem_strangers {n : String} :
    n ∈ strangers units ↔ (∃ u ∈ units, n ∈ u.imports ∨ n ∈ u.inherits) ∧ ∀ u ∈ units, u.name ≠ n := by
  simp [strangers, ContractUnit.references]

theorem nodes_ofUnits : (ofUnits units).nodes = (ofUnits units).declared ++ firstSeen (strangers units) := by
  set names := units.map ContractUnit.name
  set edges := units.flatMap ContractUnit.edges
  have htargets : edges.map Edge.target = units.flatMap ContractUnit.references := by
    rw [List.map_flatMap]
    exact List.flatMap_congr fun u _ => u.map_target_edges
  calc (ofUnits units).nodes
      = firstSeen (names ++ edges.flatMap fun e => [e.source, e.target]) := by
        rw [ofUnits, nodes_foldl_addEdge, nodes_foldl_declare, firstSeen, List.foldl_append]
        rfl
    _ = firstSeen names ++ firstSeen ((edges.map Edge.target).filter (· ∉ names)) := by
        rw [firstSeen_append, filter_ends fun e he => source_mem_names units he]
    _ = (ofUnits units).declared ++ firstSeen (strangers units) := by
        rw [declared_ofUnits, htargets, strangers]

/-- Unresolved is what was added behind the declared names. -/
theorem unresolved_ofUnits : (ofUnits units).unresolved = firstSeen (strangers units) := by
  have hdeclared : ∀ n, (ofUnits units).isDeclared n = true ↔ n ∈ units.map ContractUnit.name := fun n => by
    rw [isDeclared, List.contains_iff_mem, declared_ofUnits, mem_firstSeen]
  rw [unresolved, nodes_ofUnits, List.filter_append, List.filter_eq_nil_iff.mpr, List.filter_eq_self.mpr,
    List.nil_append]
  · intro n hn
    have hn := (List.mem_filter.mp (mem_firstSeen.mp hn)).2
    simpa [← hdeclared] using hn
  · intro n hn
    simpa [isDeclared] using hn

end DependencyGraph

/-- The graph of a list of contracts. Its declared names, its edges and its nodes are as the contracts list them, once each
and in the order of first occurrence, with the declared nodes in front. Every edge starts at a declared name and has both
ends among the nodes, and what is unresolved is exactly what some contract refers to and none declares: targets of edges,
and sources of none. -/
theorem graph_exact (units : List ContractUnit) :
    let g := DependencyGraph.ofUnits units
    let names := units.map ContractUnit.name
    let edges := units.flatMap fun u =>
      u.imports.map (fun n => Edge.mk u.name n .import) ++ u.inherits.map fun n => Edge.mk u.name n .inheritance
    let outside := (units.flatMap fun u => u.imports ++ u.inherits).filter (· ∉ names)
    ListsOnce names g.declared ∧ ListsOnce edges g.edges ∧ ListsOnce outside g.unresolved ∧
      g.nodes = g.declared ++ g.unresolved ∧ g.nodes.Nodup ∧
      (∀ e ∈ g.edges, e.source ∈ g.declared ∧ e.source ∈ g.nodes ∧ e.target ∈ g.nodes) ∧
      (∀ n, n ∈ g.unresolved ↔ (∃ u ∈ units, n ∈ u.imports ∨ n ∈ u.inherits) ∧ ∀ u ∈ units, u.name ≠ n) ∧
      ∀ n ∈ g.unresolved, (∃ e ∈ g.edges, e.target = n) ∧ ∀ e ∈ g.edges, e.source ≠ n := by
  intro g names edges outside
  have hdeclared : ListsOnce names g.declared := DependencyGraph.declared_ofUnits units ▸ listsOnce_firstSeen names
  have hedges : ListsOnce edges g.edges := DependencyGraph.edges_ofUnits units ▸ listsOnce_firstSeen edges
  have hunresolved : ListsOnce outside g.unresolved :=
    DependencyGraph.unresolved_ofUnits units ▸ listsOnce_firstSeen outside
  have hnodes : g.nodes = g.declared ++ g.unresolved :=
    (DependencyGraph.nodes_ofUnits units).trans (by rw [← DependencyGraph.unresolved_ofUnits])
  have hmem : ∀ n, n ∈ g.unresolved ↔ (∃ u ∈ units, n ∈ u.imports ∨ n ∈ u.inherits) ∧ ∀ u ∈ units, u.name ≠ n :=
    fun n => (hunresolved.mem n).trans (DependencyGraph.mem_strangers units)
  have hsource : ∀ e ∈ g.edges, e.source ∈ g.declared := fun e he =>
    (hdeclared.mem _).mpr (DependencyGraph.source_mem_names units ((hedges.mem e).mp he))
  refine ⟨hdeclared, hedges, hunresolved, hnodes, ?nodup, fun e he => ⟨hsource e he, ?source, ?target⟩, hmem,
    fun n hn => ⟨?reached, fun e he heq => ?start⟩⟩
  case nodup =>
    rw [hnodes]
    refine List.nodup_append.mpr ⟨hdeclared.nodup, hunresolved.nodup, ?_⟩
    rintro n hn _ hn' rfl
    obtain ⟨u, hu, rfl⟩ := List.mem_map.mp ((hdeclared.mem n).mp hn)
    exact ((hmem u.name).mp hn').2 u hu rfl
  case source => exact hnodes ▸ List.mem_append_left _ (hsource e he)
  case target =>
    rw [hnodes, List.mem_append, or_iff_not_imp_left]
    intro hnot
    obtain ⟨u, hu, he⟩ := List.mem_flatMap.mp ((hedges.mem e).mp he)
    have hreferred : e.target ∈ u.references := u.map_target_edges ▸ List.mem_map_of_mem he
    refine (hmem e.target).mpr ⟨⟨u, hu, List.mem_append.mp hreferred⟩, fun v hv hname => hnot ?_⟩
    exact (hdeclared.mem _).mpr (List.mem_map.mpr ⟨v, hv, hname⟩)
  case reached =>
    obtain ⟨u, hu, hreferred⟩ := ((hmem n).mp hn).1
    have hn : n ∈ u.edges.map Edge.target := u.map_target_edges ▸ List.mem_append.mpr hreferred
    obtain ⟨e, he, rfl⟩ := List.mem_map.mp hn
    exact ⟨e, (hedges.mem e).mpr (List.mem_flatMap.mpr ⟨u, hu, he⟩), rfl⟩
  case start =>
    obtain ⟨u, hu, hname⟩ := List.mem_map.mp ((hdeclared.mem _).mp (hsource e he))
    exact ((hmem n).mp hn).2 u hu (hname.trans heq)

end ContractMigration
