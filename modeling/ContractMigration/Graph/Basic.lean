import ContractMigration.Json.Reader

/-! The graph of references between contracts. Nodes are the names of contracts and the targets of imports; a node is
declared when a contract of that name was found. Nodes, declared names and edges are listed once each, in the order in
which they were first met. -/

namespace ContractMigration

/-- Why one node refers to another. -/
inductive EdgeKind
  | import
  | inheritance
  deriving DecidableEq

namespace EdgeKind

def name : EdgeKind → String
  | .import => "import"
  | .inheritance => "inheritance"

def all : List EdgeKind := [.import, .inheritance]

def reader : Json.Reader EdgeKind := Json.variant (all.map fun k => ⟨k, [k.name]⟩) none

end EdgeKind

/-- A reference from one node to another. -/
structure Edge where
  source : String
  target : String
  kind : EdgeKind
  deriving DecidableEq

/-- Adds an element at the end unless it is there. -/
def insertNew {α : Type} [DecidableEq α] (xs : List α) (x : α) : List α := if x ∈ xs then xs else xs ++ [x]

/-- The elements without repetitions, in the order of first appearance. -/
def firstSeen {α : Type} [DecidableEq α] (xs : List α) : List α := xs.foldl insertNew []

/-- Nodes, declared names and edges. -/
structure DependencyGraph where
  nodes : List String
  declared : List String
  edges : List Edge
  deriving DecidableEq

namespace DependencyGraph

def empty : DependencyGraph := ⟨[], [], []⟩

/-- Declares a name. -/
def declare (g : DependencyGraph) (name : String) : DependencyGraph :=
  { g with nodes := insertNew g.nodes name, declared := insertNew g.declared name }

/-- Adds an edge and its two ends. -/
def addEdge (g : DependencyGraph) (e : Edge) : DependencyGraph :=
  { g with nodes := insertNew (insertNew g.nodes e.source) e.target, edges := insertNew g.edges e }

def containsNode (g : DependencyGraph) (name : String) : Bool := g.nodes.contains name

def isDeclared (g : DependencyGraph) (name : String) : Bool := g.declared.contains name

def hasEdge (g : DependencyGraph) (e : Edge) : Bool := g.edges.contains e

/-- What is done to a graph while it is built. -/
inductive Call
  | declare (name : String)
  | addEdge (e : Edge)
  deriving DecidableEq

/-- Does it, and tells whether the name or the edge is new. -/
def call (g : DependencyGraph) : Call → Bool × DependencyGraph
  | .declare name => (!g.isDeclared name, g.declare name)
  | .addEdge e => (!g.hasEdge e, g.addEdge e)

/-- The nodes that were never declared. -/
def unresolved (g : DependencyGraph) : List String := g.nodes.filter fun n => !g.isDeclared n

def edgesFrom (g : DependencyGraph) (name : String) : List Edge := g.edges.filter fun e => e.source == name

def edgesInto (g : DependencyGraph) (name : String) : List Edge := g.edges.filter fun e => e.target == name

/-- What `name` inherits from. -/
def parentsOf (g : DependencyGraph) (name : String) : List String :=
  ((g.edgesFrom name).filter fun e => e.kind == .inheritance).map Edge.target

/-- What inherits from `name`. -/
def childrenOf (g : DependencyGraph) (name : String) : List String :=
  ((g.edgesInto name).filter fun e => e.kind == .inheritance).map Edge.source

/-- Whether `name` is inherited from and inherits from nothing. -/
def isOnlyInherited (g : DependencyGraph) (name : String) : Bool :=
  (g.edgesInto name).any (fun e => e.kind == .inheritance) && !(g.edgesFrom name).any (fun e => e.kind == .inheritance)

/-- How many edges are of a kind. -/
def edgeCount (g : DependencyGraph) (k : EdgeKind) : Nat := (g.edges.filter fun e => e.kind == k).length

end DependencyGraph

/-! ### JSON -/

namespace Edge

def toJson (e : Edge) : Json.Value :=
  .object [("from", .string e.source), ("to", .string e.target), ("kind", .string e.kind.name)]

def reader : Json.Reader Edge :=
  Json.record "DependencyEdge" (Edge.mk <$> Json.field "from" Json.string <*> Json.field "to" Json.string <*>
    Json.field "kind" EdgeKind.reader)

end Edge

namespace DependencyGraph

def toJson (g : DependencyGraph) : Json.Value :=
  .object [("nodes", Json.strings g.nodes), ("declared", Json.strings g.declared), ("edges", .list (g.edges.map Edge.toJson))]

/-- Reads a list whose repeated items count once. -/
def setReader {α : Type} [DecidableEq α] (r : Json.Reader α) : Json.Reader (List α) := fun d =>
  (Json.listAs "a set" r d).map firstSeen

def reader : Json.Reader DependencyGraph :=
  Json.record "DependencyGraph" (DependencyGraph.mk <$> Json.field "nodes" (setReader Json.string) <*>
    Json.field "declared" (setReader Json.string) <*> Json.field "edges" (setReader Edge.reader))

end DependencyGraph

end ContractMigration
