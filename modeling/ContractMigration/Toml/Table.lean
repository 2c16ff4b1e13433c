import ContractMigration.Json.Value

/-! Tables while they are being filled. A node remembers how its table came to be, since that decides who may add to
it. -/

namespace ContractMigration.Toml

open Json (Value)

/-- How a table came to be: as part of the path of a header, by its own header, or by dots in a key. -/
inductive Origin
  | path
  | header
  | dotted
  deriving DecidableEq

/-- What stands under a key: a value, a table, or the tables of an array, the last one first. -/
inductive Node
  | value (v : Value)
  | table (origin : Origin) (entries : List (String × Node))
  | tables (items : List (List (String × Node)))

abbrev Entries := List (String × Node)

/-- Replaces the node of a key, or adds it at the end. -/
def put (es : Entries) (k : String) (n : Node) : Entries :=
  if es.any fun e => e.1 == k then es.map fun (j, m) => if j = k then (j, n) else (j, m) else es ++ [(k, n)]

/-- Gives a key a value. Tables on the way must have no header of their own, and the last one must be new or opened by
dots; `isOpen` says whether the entries given are those of such a table. -/
def assign? : (isOpen : Bool) → Entries → List String → Value → Option Entries
  | _, _, [], _ => none
  | isOpen, es, [k], v => if isOpen && (es.lookup k).isNone then some (es ++ [(k, .value v)]) else none
  | _, es, k :: path, v => match es.lookup k with
    | none => (assign? true [] path v).map fun inner => es ++ [(k, .table .dotted inner)]
    | some (.table .header _) => none
    | some (.table o inner) => (assign? (o = .dotted) inner path v).map fun inner => put es k (.table o inner)
    | some (.tables (last :: before)) => (assign? false last path v).map fun last => put es k (.tables (last :: before))
    | some _ => none

mutual

/-- The value of a node. -/
def Node.toValue : Node → Value
  | .value v => v
  | .table _ es => .object (entryValues es)
  | .tables items => .list (tableValues items).reverse

def entryValues : List (String × Node) → List (String × Value)
  | [] => []
  | (k, n) :: r => (k, n.toValue) :: entryValues r

def tableValues : List (List (String × Node)) → List Value
  | [] => []
  | es :: r => .object (entryValues es) :: tableValues r

end

end ContractMigration.Toml
