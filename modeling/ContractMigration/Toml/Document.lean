import ContractMigration.Toml.Value

/-! Configuration files as a whole: lines with a key and a value, and headers that open a table or one more table of an
array. A table is opened once, and a key is given once. -/

namespace ContractMigration.Toml

open Json (Value)

/-- Changes the entries that the path of a header leads to. -/
def under? (f : Entries → Option Entries) : Entries → List String → Option Entries
  | es, [] => f es
  | es, k :: path => match es.lookup k with
    | none => (under? f [] path).map fun inner => es ++ [(k, .table .path inner)]
    | some (.table o inner) => (under? f inner path).map fun inner => put es k (.table o inner)
    | some (.tables (last :: before)) => (under? f last path).map fun last => put es k (.tables (last :: before))
    | some _ => none

/-- Opens a table. -/
def openTable? (name : String) (es : Entries) : Option Entries :=
  match es.lookup name with
  | none => some (es ++ [(name, .table .header [])])
  | some (.table .path inner) => some (put es name (.table .header inner))
  | some _ => none

/-- Opens one more table of an array. -/
def openItem? (name : String) (es : Entries) : Option Entries :=
  match es.lookup name with
  | none => some (es ++ [(name, .tables [[]])])
  | some (.tables items) => some (put es name (.tables ([] :: items)))
  | some _ => none

/-- The end of a line: a comment, then a line break or the end of the text. -/
def endLine? (s : List Char) : Option (List Char) := do
  match ← dropComment? (dropBlank s) with
  | [] => some []
  | r => dropBreak? r

/-- Reads the lines of a file into its entries; `current` is the path of the last header. -/
def lines? : Nat → Entries → List String → List Char → Option Entries
  | 0, _, _, _ => none
  | fuel + 1, es, current, s => do
    match ← dropLayout? (s.length + 1) s with
    | [] => some es
    | '[' :: '[' :: r =>
      let (path, r) ← key? r
      match r with
      | ']' :: ']' :: r =>
        let name ← path.getLast?
        let es ← under? (openItem? name) es path.dropLast
        lines? fuel es path (← endLine? r)
      | _ => none
    | '[' :: r =>
      let (path, r) ← key? r
      match r with
      | ']' :: r =>
        let name ← path.getLast?
        let es ← under? (openTable? name) es path.dropLast
        lines? fuel es path (← endLine? r)
      | _ => none
    | s =>
      let (path, r) ← key? s
      match r with
      | '=' :: r =>
        let (v, r) ← value? maxDepth (r.length + 1) (dropBlank r)
        let es ← under? (assign? true · path v) es current
        lines? fuel es current (← endLine? r)
      | _ => none

/-- The value of a file, unless it is not well formed. -/
def parse? (text : String) : Option Value :=
  let cs := text.toList
  let cs := match cs with
    | '\ufeff' :: r => r
    | cs => cs
  (lines? (cs.length + 2) [] [] cs).map fun es => .object (entryValues es)

end ContractMigration.Toml
