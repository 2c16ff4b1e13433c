import ContractMigration.Graph.Inference
import ContractMigration.Proofs.Graph.FirstSeen

/-! Entry points. The graph of a list of contracts tells of a name only what the contracts of that name and those that
list it say, whatever is declared twice, of two kinds, or in a circle. So the entry points are the concrete names but for
the pure bases: names that some contract inherits from and under which no contract inherits anything. -/

namespace ContractMigration

/-- Some contract inherits from this name, and no contract of this name inherits. -/
def IsPureBase (units : List ContractUnit) (name : String) : Prop :=
  (∃ u ∈ units, name ∈ u.inherits) ∧ ¬∃ u ∈ units, u.name = name ∧ u.inherits ≠ []

namespace DependencyGraph

/-! ### The edges of a graph -/

theorem edges_foldl_declare (g : DependencyGraph) (units : List ContractUnit) :
    (units.foldl (fun g u => g.declare u.name) g).edges = g.edges := by
  induction units generalizing g with
  | nil => rfl
  | cons u rest ih => rw [List.foldl_cons, ih]; rfl

theorem edges_foldl_addEdge (g : DependencyGraph) (es : List Edge) :
    (es.foldl addEdge g).edges = es.foldl insertNew g.edges := by
  induction es generalizing g with
  | nil => rfl
  | cons e rest ih => rw [List.foldl_cons, ih]; rfl

/-- The edges of a graph are those of its contracts, once each. -/
theorem edges_ofUnits (units : List ContractUnit) : (ofUnits units).edges = firstSeen (units.flatMap ContractUnit.edges) := by
  rw [ofUnits, edges_foldl_addEdge, edges_foldl_declare]
  rfl

theorem inheritance_mem_edges_ofUnits {units : List ContractUnit} {source target : String} :
    ⟨source, target, .inheritance⟩ ∈ (ofUnits units).edges ↔ ∃ u ∈ units, u.name = source ∧ target ∈ u.inherits := by
  simp [edges_ofUnits, ContractUnit.edges, and_comm]

/-! ### Pure bases -/

theorem isOnlyInherited_iff (g : DependencyGraph) (name : String) :
    g.isOnlyInherited name = true ↔
      (∃ child, ⟨child, name, .inheritance⟩ ∈ g.edges) ∧ ¬∃ parent, ⟨name, parent, .inheritance⟩ ∈ g.edges := by
  have hinto : (g.edgesInto name).any (fun e => e.kind == .inheritance) = true ↔
      ∃ child, ⟨child, name, .inheritance⟩ ∈ g.edges := by
    rw [List.any_eq_true]
    constructor
    · rintro ⟨⟨child, target, kind⟩, he, hkind⟩
      obtain ⟨hmem, htarget⟩ := List.mem_filter.mp he
      obtain rfl : target = name := beq_iff_eq.mp htarget
      obtain rfl : kind = .inheritance := beq_iff_eq.mp hkind
      exact ⟨child, hmem⟩
    · rintro ⟨child, hmem⟩
      exact ⟨_, List.mem_filter.mpr ⟨hmem, beq_self_eq_true name⟩, rfl⟩
  have hfrom : (g.edgesFrom name).any (fun e => e.kind == .inheritance) = true ↔
      ∃ parent, ⟨name, parent, .inheritance⟩ ∈ g.edges := by
    rw [List.any_eq_true]
    constructor
    · rintro ⟨⟨source, parent, kind⟩, he, hkind⟩
      obtain ⟨hmem, hsource⟩ := List.mem_filter.mp he
      obtain rfl : source = name := beq_iff_eq.mp hsource
      obtain rfl : kind = .inheritance := beq_iff_eq.mp hkind
      exact ⟨parent, hmem⟩
    · rintro ⟨parent, hmem⟩
      exact ⟨_, List.mem_filter.mpr ⟨hmem, beq_self_eq_true name⟩, rfl⟩
  rw [isOnlyInherited, Bool.and_eq_true, hinto, Bool.not_eq_true', ← Bool.not_eq_true, hfrom]

theorem isOnlyInherited_ofUnits (units : List ContractUnit) (name : String) :
    (ofUnits units).isOnlyInherited name = true ↔ IsPureBase units name := by
  rw [isOnlyInherited_iff, IsPureBase]
  simp only [inheritance_mem_edges_ofUnits]
  have hchild : (∃ child, ∃ u ∈ units, u.name = child ∧ name ∈ u.inherits) ↔ ∃ u ∈ units, name ∈ u.inherits := by
    constructor
    · rintro ⟨child, u, hu, -, hname⟩
      exact ⟨u, hu, hname⟩
    · rintro ⟨u, hu, hname⟩
      exact ⟨u.name, u, hu, rfl, hname⟩
  have hparent : (∃ parent, ∃ u ∈ units, u.name = name ∧ parent ∈ u.inherits) ↔
      ∃ u ∈ units, u.name = name ∧ u.inherits ≠ [] := by
    constructor
    · rintro ⟨parent, u, hu, hname, hmem⟩
      exact ⟨u, hu, hname, List.ne_nil_of_mem hmem⟩
    · rintro ⟨u, hu, hname, hne⟩
      obtain ⟨parent, hmem⟩ := List.exists_mem_of_ne_nil _ hne
      exact ⟨parent, u, hu, hname, hmem⟩
  rw [hchild, hparent]

end DependencyGraph

/-! ### Entry points -/

/-- The names of concrete contracts, with repetitions. -/
def concreteOccurrences (units : List ContractUnit) : List String :=
  (units.filter fun u => u.kind == .contract).map ContractUnit.name

theorem mem_concreteOccurrences {units : List ContractUnit} {name : String} :
    name ∈ concreteOccurrences units ↔ ∃ u ∈ units, u.name = name ∧ u.kind = .contract := by
  simp only [concreteOccurrences, List.mem_map, List.mem_filter, beq_iff_eq]
  exact ⟨fun ⟨u, ⟨hu, hkind⟩, hname⟩ => ⟨u, hu, hname, hkind⟩, fun ⟨u, hu, hname, hkind⟩ => ⟨u, ⟨hu, hkind⟩, hname⟩⟩

/-- The concrete names that a graph leaves out of the entry points. -/
def excludedBases (units : List ContractUnit) (g : DependencyGraph) : List String :=
  (concreteNames units).filter g.isOnlyInherited

/-- The reason for the entry points, with the names that were left out. -/
theorem rationale_inferEntryPoints (units : List ContractUnit) (g : DependencyGraph) :
    (inferEntryPoints units g).rationale =
      "name-based: concrete contracts, excluding pure bases that are inherited from and inherit nothing" ++
        (if excludedBases units g = [] then "" else "; excluded bases: " ++ Text.join ", " (excludedBases units g)) := by
  have hreason : (inferEntryPoints units g).rationale =
      if (excludedBases units g).isEmpty then
        "name-based: concrete contracts, excluding pure bases that are inherited from and inherit nothing"
      else "name-based: concrete contracts, excluding pure bases that are inherited from and inherit nothing" ++
        "; excluded bases: " ++ Text.join ", " (excludedBases units g) := rfl
  rw [hreason]
  split_ifs with h h' h'
  · simp
  · exact absurd (List.isEmpty_iff.mp h) h'
  · exact absurd (List.isEmpty_iff.mpr h') h
  · rw [String.append_assoc]

/-- The entry points of contracts, with the graph of these, are the concrete names that are no pure bases, once each and in
the order in which they first occur as concrete names; those that are pure bases are the names that the reason lists. -/
theorem entryPoints_exact (units : List ContractUnit) :
    let g := DependencyGraph.ofUnits units
    let found := inferEntryPoints units g
    found.value.Nodup ∧
      (found.value.Pairwise fun m n => (concreteOccurrences units).idxOf m < (concreteOccurrences units).idxOf n) ∧
      (∀ n, n ∈ found.value ↔ (∃ u ∈ units, u.name = n ∧ u.kind = .contract) ∧ ¬IsPureBase units n) ∧
      (∀ n ∈ concreteOccurrences units, Xor (n ∈ found.value) (n ∈ excludedBases units g)) ∧
      found.rationale =
        "name-based: concrete contracts, excluding pure bases that are inherited from and inherit nothing" ++
          (if excludedBases units g = [] then "" else "; excluded bases: " ++ Text.join ", " (excludedBases units g)) := by
  intro g found
  have hvalue : found.value = (firstSeen (concreteOccurrences units)).filter fun n => !g.isOnlyInherited n := rfl
  have hmem : ∀ n, n ∈ found.value ↔ (∃ u ∈ units, u.name = n ∧ u.kind = .contract) ∧ ¬IsPureBase units n := by
    intro n
    rw [hvalue, List.mem_filter, mem_firstSeen, mem_concreteOccurrences, Bool.not_eq_true', ← Bool.not_eq_true,
      DependencyGraph.isOnlyInherited_ofUnits]
  have hexcluded : ∀ n, n ∈ excludedBases units g ↔ n ∈ concreteOccurrences units ∧ IsPureBase units n := by
    intro n
    rw [← DependencyGraph.isOnlyInherited_ofUnits]
    show n ∈ (firstSeen (concreteOccurrences units)).filter g.isOnlyInherited ↔ _
    rw [List.mem_filter, mem_firstSeen]
  refine ⟨?nodup, ?order, hmem, ?split, rationale_inferEntryPoints units g⟩
  case nodup =>
    rw [hvalue]
    exact (nodup_firstSeen _).filter _
  case order =>
    rw [hvalue]
    exact (pairwise_firstSeen _).filter _
  case split =>
    intro n hn
    rw [hmem, hexcluded, ← mem_concreteOccurrences]
    by_cases hbase : IsPureBase units n
    · exact .inr ⟨⟨hn, hbase⟩, fun h => h.2 hbase⟩
    · exact .inl ⟨⟨hn, hbase⟩, fun h => hbase h.2⟩

end ContractMigration
