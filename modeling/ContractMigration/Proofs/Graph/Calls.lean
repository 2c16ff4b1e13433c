import ContractMigration.Proofs.Graph.EntryPoints

/-! Graphs that are built by calls in any order. Nodes, declared names and edges are those that the calls speak of, once each
and in the order of first occurrence. Declared names and the ends of edges are nodes, and there are no other nodes. A call
tells whether it adds to the declared names or to the edges, and parents and children are read off the same edges. -/

namespace ContractMigration.DependencyGraph

variable {g : DependencyGraph} {k : Call} {n parent child : String} {e : Edge}

/-! ### One call -/

namespace Call

/-- The nodes that a call speaks of. -/
def nodes : Call → List String
  | declare name => [name]
  | addEdge e => [e.source, e.target]

/-- The name that a call declares. -/
def declared : Call → List String
  | declare name => [name]
  | addEdge _ => []

/-- The edge that a call adds. -/
def edges : Call → List Edge
  | declare _ => []
  | addEdge e => [e]

theorem mem_declared : n ∈ k.declared ↔ k = declare n := by
  cases k <;> simp [declared, eq_comm]

theorem mem_edges : e ∈ k.edges ↔ k = addEdge e := by
  cases k <;> simp [edges, eq_comm]

end Call

theorem nodes_call (g : DependencyGraph) (k : Call) : (g.call k).2.nodes = k.nodes.foldl insertNew g.nodes := by
  cases k <;> rfl

theorem declared_call (g : DependencyGraph) (k : Call) : (g.call k).2.declared = k.declared.foldl insertNew g.declared := by
  cases k <;> rfl

theorem edges_call (g : DependencyGraph) (k : Call) : (g.call k).2.edges = k.edges.foldl insertNew g.edges := by
  cases k <;> rfl

/-- A call adds what it speaks of exactly if it tells so. -/
theorem call_adds (g : DependencyGraph) (k : Call) :
    (g.call k).2.declared = g.declared ++ (if (g.call k).1 then k.declared else []) ∧
      (g.call k).2.edges = g.edges ++ if (g.call k).1 then k.edges else [] := by
  cases k with
  | declare name => by_cases h : name ∈ g.declared <;> simp [call, declare, isDeclared, insertNew, Call.declared, Call.edges, h]
  | addEdge e => by_cases h : e ∈ g.edges <;> simp [call, addEdge, hasEdge, insertNew, Call.declared, Call.edges, h]

/-- How nodes, declared names and edges belong together. -/
structure Sound (g : DependencyGraph) : Prop where
  declared : ∀ n ∈ g.declared, n ∈ g.nodes
  ends : ∀ e ∈ g.edges, e.source ∈ g.nodes ∧ e.target ∈ g.nodes
  others : ∀ n ∈ g.nodes, n ∉ g.declared → ∃ e ∈ g.edges, e.source = n ∨ e.target = n

theorem sound_empty : Sound empty := ⟨fun _ => nofun, fun _ => nofun, fun _ => nofun⟩

theorem Sound.call (h : Sound g) (k : Call) : Sound (g.call k).2 := by
  have hnodes : ∀ {n}, n ∈ (g.call k).2.nodes ↔ n ∈ g.nodes ∨ n ∈ k.nodes := by
    rw [nodes_call]
    exact mem_foldl_insertNew
  have hdeclared : ∀ {n}, n ∈ (g.call k).2.declared ↔ n ∈ g.declared ∨ n ∈ k.declared := by
    rw [declared_call]
    exact mem_foldl_insertNew
  have hedges : ∀ {e}, e ∈ (g.call k).2.edges ↔ e ∈ g.edges ∨ e ∈ k.edges := by
    rw [edges_call]
    exact mem_foldl_insertNew
  refine ⟨fun n hn => ?_, fun e he => ?_, fun n hn hnot => ?_⟩
  · rcases hdeclared.mp hn with hn | hn
    · exact hnodes.mpr (.inl (h.declared n hn))
    · exact hnodes.mpr (.inr (by simp [Call.mem_declared.mp hn, Call.nodes]))
  · rcases hedges.mp he with he | he
    · exact ⟨hnodes.mpr (.inl (h.ends e he).1), hnodes.mpr (.inl (h.ends e he).2)⟩
    · obtain rfl := Call.mem_edges.mp he
      exact ⟨hnodes.mpr (.inr (by simp [Call.nodes])), hnodes.mpr (.inr (by simp [Call.nodes]))⟩
  · rw [hdeclared, not_or] at hnot
    rcases hnodes.mp hn with hn | hn
    · obtain ⟨e, he, hend⟩ := h.others n hn hnot.1
      exact ⟨e, hedges.mpr (.inl he), hend⟩
    · cases k with
      | declare name => exact absurd hn hnot.2
      | addEdge e => exact ⟨e, hedges.mpr (.inr (by simp [Call.edges])), by simpa [Call.nodes, eq_comm] using hn⟩

/-! ### Calls one after the other -/

/-- The graph that calls build, beginning with the empty one. -/
def after (calls : List Call) : DependencyGraph := calls.foldl (fun g k => (g.call k).2) empty

theorem sound_after (calls : List Call) : Sound (after calls) := by
  induction calls using List.reverseRecOn with
  | nil => exact sound_empty
  | append_singleton calls k ih =>
    rw [after, List.foldl_append]
    exact ih.call k

/-- What each call adds if it is not there, calls list once. -/
theorem foldl_call {α : Type} [DecidableEq α] {list : DependencyGraph → List α} {said : Call → List α}
    (h : ∀ g k, list (g.call k).2 = (said k).foldl insertNew (list g)) (g : DependencyGraph) (calls : List Call) :
    list (calls.foldl (fun g k => (g.call k).2) g) = (calls.flatMap said).foldl insertNew (list g) := by
  induction calls generalizing g with
  | nil => rfl
  | cons k calls ih => rw [List.foldl_cons, ih, h, List.flatMap_cons, List.foldl_append]

theorem nodes_after (calls : List Call) : (after calls).nodes = firstSeen (calls.flatMap Call.nodes) :=
  foldl_call nodes_call empty calls

theorem declared_after (calls : List Call) : (after calls).declared = firstSeen (calls.flatMap Call.declared) :=
  foldl_call declared_call empty calls

theorem edges_after (calls : List Call) : (after calls).edges = firstSeen (calls.flatMap Call.edges) :=
  foldl_call edges_call empty calls

/-- A call adds something new exactly if it is not made for the second time. -/
theorem call_after_iff (calls : List Call) (k : Call) : ((after calls).call k).1 = true ↔ k ∉ calls := by
  cases k with
  | declare name =>
    have hname : name ∈ (after calls).declared ↔ .declare name ∈ calls := by
      simp [declared_after, Call.mem_declared]
    simp [call, isDeclared, hname]
  | addEdge e =>
    have hedge : e ∈ (after calls).edges ↔ .addEdge e ∈ calls := by
      simp [edges_after, Call.mem_edges]
    simp [call, hasEdge, hedge]

/-! ### Parents and children -/

theorem mem_parentsOf : parent ∈ g.parentsOf child ↔ ⟨child, parent, .inheritance⟩ ∈ g.edges := by
  simp only [parentsOf, edgesFrom, List.mem_map, List.mem_filter, beq_iff_eq]
  constructor
  · rintro ⟨⟨source, target, kind⟩, ⟨⟨he, rfl⟩, rfl⟩, rfl⟩
    exact he
  · intro he
    exact ⟨_, ⟨⟨he, rfl⟩, rfl⟩, rfl⟩

theorem mem_childrenOf : child ∈ g.childrenOf parent ↔ ⟨child, parent, .inheritance⟩ ∈ g.edges := by
  simp only [childrenOf, edgesInto, List.mem_map, List.mem_filter, beq_iff_eq]
  constructor
  · rintro ⟨⟨source, target, kind⟩, ⟨⟨he, rfl⟩, rfl⟩, rfl⟩
    exact he
  · intro he
    exact ⟨_, ⟨⟨he, rfl⟩, rfl⟩, rfl⟩

/-- Edges from one node are told apart by their targets. -/
theorem nodup_parentsOf (h : g.edges.Nodup) (child : String) : (g.parentsOf child).Nodup := by
  refine List.Nodup.map_on ?_ ((h.filter _).filter _)
  rintro ⟨s, t, k⟩ he ⟨s', t', k'⟩ he' rfl
  simp only [edgesFrom, List.mem_filter, beq_iff_eq] at he he'
  rw [he.1.2, he.2, he'.1.2, he'.2]

/-- Edges to one node are told apart by their sources. -/
theorem nodup_childrenOf (h : g.edges.Nodup) (parent : String) : (g.childrenOf parent).Nodup := by
  refine List.Nodup.map_on ?_ ((h.filter _).filter _)
  rintro ⟨s, t, k⟩ he ⟨s', t', k'⟩ he' rfl
  simp only [edgesInto, List.mem_filter, beq_iff_eq] at he he'
  rw [he.1.2, he.2, he'.1.2, he'.2]

/-- Children and no parents make what is only inherited. -/
theorem isOnlyInherited_iff_children (g : DependencyGraph) (n : String) :
    g.isOnlyInherited n = true ↔ g.childrenOf n ≠ [] ∧ g.parentsOf n = [] := by
  rw [isOnlyInherited_iff, Ne, List.eq_nil_iff_forall_not_mem, List.eq_nil_iff_forall_not_mem, not_forall_not, not_exists]
  simp only [mem_childrenOf, mem_parentsOf]

/-- Whatever the calls and their order, nodes, declared names and edges are those that the calls speak of, once each and in
the order of first occurrence. Declared names and the ends of edges are nodes, and a node that is not declared is the end of
an edge. A call tells whether it is made for the first time, and it adds to the declared names or to the edges exactly then.
One node is a parent of another, once, exactly if that one is its child, once, which is if the call for that was made. -/
theorem graph_after (calls : List Call) :
    let g := after calls
    ListsOnce (calls.flatMap Call.nodes) g.nodes ∧ ListsOnce (calls.flatMap Call.declared) g.declared ∧
      ListsOnce (calls.flatMap Call.edges) g.edges ∧
    ((∀ n ∈ g.declared, n ∈ g.nodes) ∧ (∀ e ∈ g.edges, e.source ∈ g.nodes ∧ e.target ∈ g.nodes) ∧
      ∀ n ∈ g.nodes, n ∉ g.declared → ∃ e ∈ g.edges, e.source = n ∨ e.target = n) ∧
    (∀ k, ((g.call k).1 = true ↔ k ∉ calls) ∧
      (g.call k).2.declared = g.declared ++ (if (g.call k).1 then k.declared else []) ∧
      (g.call k).2.edges = g.edges ++ if (g.call k).1 then k.edges else []) ∧
    (∀ parent child, (parent ∈ g.parentsOf child ↔ child ∈ g.childrenOf parent) ∧
      (parent ∈ g.parentsOf child ↔ .addEdge ⟨child, parent, .inheritance⟩ ∈ calls) ∧
      (g.parentsOf child).Nodup ∧ (g.childrenOf parent).Nodup) ∧
    ∀ n, g.isOnlyInherited n = true ↔ g.childrenOf n ≠ [] ∧ g.parentsOf n = [] := by
  intro g
  have hedges : ListsOnce (calls.flatMap Call.edges) g.edges := edges_after calls ▸ listsOnce_firstSeen _
  have hsound := sound_after calls
  refine ⟨nodes_after calls ▸ listsOnce_firstSeen _, declared_after calls ▸ listsOnce_firstSeen _, hedges,
    ⟨hsound.declared, hsound.ends, hsound.others⟩, fun k => ⟨call_after_iff calls k, call_adds g k⟩,
    fun parent child => ⟨mem_parentsOf.trans mem_childrenOf.symm, mem_parentsOf.trans ?_,
      nodup_parentsOf hedges.nodup child, nodup_childrenOf hedges.nodup parent⟩, isOnlyInherited_iff_children g⟩
  simp [hedges.mem, Call.mem_edges]

/-- An edge from a node to itself, and one pair of nodes under both kinds before one of them is declared. -/
example :
    let g := after [.addEdge ⟨"A", "B", .import⟩, .addEdge ⟨"A", "B", .inheritance⟩, .addEdge ⟨"B", "B", .inheritance⟩, .declare "B"]
    g.nodes = ["A", "B"] ∧ g.parentsOf "A" = ["B"] ∧ g.childrenOf "B" = ["A", "B"] ∧ g.isOnlyInherited "B" = false ∧
      (g.call (.addEdge ⟨"A", "B", .import⟩)).1 = false := by
  decide

end ContractMigration.DependencyGraph
