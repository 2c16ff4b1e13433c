import ContractMigration.Json.Doc

/-! Reading documents as values of a type. A reader goes through its document from left to right and stops at the first
thing that it cannot use. Records are read by `Fields`, which say what the members are called, which of them may be
missing, and how the record is built from them; a record may also be written as the list of its fields. -/

namespace ContractMigration.Json

/-- Reads a document as an `α`. -/
abbrev Reader (α : Type) := Doc → Except Error α

/-- The fault at a place, if there is one. -/
def raise : Option Error → Except Error Unit
  | none => .ok ()
  | some e => .error e

mutual

/-- Passes over a value. -/
def Doc.skip : Doc → Except Error Unit
  | .leaf l => raise l.skipped
  | .list items close => do
    skipItems items
    raise close.skip
  | .object members close => do
    skipMembers members
    raise close.skip
  | .deep inner => inner.skip

/-- Passes over items. -/
def skipItems : List Doc → Except Error Unit
  | [] => .ok ()
  | d :: r => do
    d.skip
    skipItems r

/-- Passes over members. -/
def skipMembers : List (Leaf × Doc) → Except Error Unit
  | [] => .ok ()
  | (k, d) :: r => do
    raise k.skipped
    d.skip
    skipMembers r

end

/-- The shape of a document. -/
def Doc.found : Doc → Except Error Found
  | .leaf l => l.taken.map Scalar.found
  | .list .. => .ok .sequence
  | .object .. => .ok .map
  | .deep inner => inner.found

/-- Refuses a document of another shape than the one wanted. -/
def Doc.refuse {α : Type} (d : Doc) (wanted : String) : Except Error α := do
  let f ← d.found
  .error (.invalidType f wanted)

/-- The text of a key. -/
def Leaf.key (l : Leaf) : Except Error String := do
  match ← l.taken with
  | .string s => .ok s
  | s => .error (.invalidType s.found "a string")

/-! ### Scalars -/

/-- Reads a string that `wanted` describes. -/
def stringAs (wanted : String) : Reader String
  | .leaf ⟨_, .ok (.string s), _⟩ => .ok s
  | d => d.refuse wanted

/-- Reads a string. -/
def string : Reader String := stringAs "a string"

/-- Reads a truth value. -/
def boolean : Reader Bool
  | .leaf ⟨_, .ok (.bool b), _⟩ => .ok b
  | d => d.refuse "a boolean"

/-- Reads a natural number of sixty-four bits that `wanted` describes. -/
def natural (wanted : String) : Reader Nat
  | .leaf ⟨_, .ok (.nat n), _⟩ => .ok n
  | .leaf ⟨_, .ok (.negative n), _⟩ => .error (.invalidValue (.negative n) wanted)
  | d => d.refuse wanted

/-- Reads a count. -/
def count : Reader Nat := natural "usize"

/-- Reads a size in bytes or a number of seconds. -/
def size : Reader Nat := natural "u64"

/-- Reads a double. -/
def double : Reader Float
  | .leaf ⟨_, .ok (.nat n), _⟩ => .ok (UInt64.ofNat n).toFloat
  | .leaf ⟨_, .ok (.negative n), _⟩ => .ok (-(UInt64.ofNat n).toFloat)
  | .leaf ⟨_, .ok (.float f), _⟩ => .ok f
  | d => d.refuse "f64"

/-- Reads null. -/
def unit : Reader Unit
  | .leaf ⟨_, .ok .null, _⟩ => .ok ()
  | d => d.refuse "unit"

/-- Reads null as nothing. What begins as null does is not read in any other way. -/
def nullable {α : Type} (r : Reader α) : Reader (Option α)
  | .leaf ⟨.null, s, _⟩ => s.map fun _ => none
  | d => (r d).map some

/-! ### Lists and maps -/

/-- Reads the items of a list one after the other. -/
def listAs {α : Type} (wanted : String) (r : Reader α) : Reader (List α)
  | .list items close => do
    let xs ← items.mapM r
    raise close.read
    .ok xs
  | .deep (.list ..) => .error .tooDeep
  | d => d.refuse wanted

/-- Reads a list. -/
def list {α : Type} (r : Reader α) : Reader (List α) := listAs "a sequence" r

/-- Reads an object as a map: each key by `key`, each value by `value`, later members over earlier ones. -/
def map {α β γ : Type} (key : String → Except Error α) (value : Reader β) (empty : γ) (insert : γ → α → β → γ) :
    Reader γ
  | .object members close => do
    let m ← members.foldlM (fun m (k, d) => do
      let a ← key (← k.key)
      let b ← value d
      pure (insert m a b)) empty
    raise close.read
    .ok m
  | .deep (.object ..) => .error .tooDeep
  | d => d.refuse "a map"

/-! ### Variants -/

/-- One case of a choice: its value and the names it goes by. -/
structure Case (α : Type) where
  value : α
  names : List String

/-- The case of that name, else the catch-all. -/
def choose {α : Type} (cases : List (Case α)) (otherwise : Option α) (name : String) : Except Error α :=
  match cases.find? fun c => c.names.contains name with
  | some c => .ok c.value
  | none => match otherwise with
    | some a => .ok a
    | none => .error (.unknownVariant name (cases.flatMap Case.names))

/-- Reads the name of a case, or an object whose only member has that name and the value null. -/
def variant {α : Type} (cases : List (Case α)) (otherwise : Option α) : Reader α
  | .leaf l => match l.start with
    | .plain | .null => .error .expectedValue
    | _ => do choose cases otherwise (← l.key)
  | .object [] close => do
    raise close.variant
    .error .expectedValue
  | .object ((k, d) :: rest) close => do
    let a ← choose cases otherwise (← k.key)
    unit d
    if rest.isEmpty then raise close.variant else .error .expectedValue
    .ok a
  | .deep (.object ..) => .error .tooDeep
  | _ => .error .expectedValue

/-! ### Records -/

/-- The items of a list that are not read yet, how it ends, and how many members have had their turn. -/
structure Remaining where
  items : List Doc
  close : Close
  turn : Nat

/-- The next item, unless the list ends here. -/
def Remaining.next? (s : Remaining) : Except Error (Option (Doc × Remaining)) :=
  match s.items with
  | d :: r => .ok (some (d, ⟨r, s.close, s.turn + 1⟩))
  | [] => do
    raise s.close.read
    .ok none

/-- The members of a record of type `α`. Slots hold what was read so far. -/
structure Fields (α : Type) : Type 1 where
  Slots : Type
  empty : Slots
  names : List String
  put : String → Slots → Option (Doc → Except Error Slots)
  take : (Nat → Error) → Remaining → Except Error (Slots × Remaining)
  finish : Slots → Except Error α

namespace Fields

/-- A record without members. -/
protected def pure {α : Type} (a : α) : Fields α where
  Slots := Unit
  empty := ()
  names := []
  put _ _ := none
  take _ s := .ok ((), s)
  finish _ := .ok a

/-- Applies a function to what was built. -/
protected def map {α β : Type} (f : α → β) (x : Fields α) : Fields β where
  Slots := x.Slots
  empty := x.empty
  names := x.names
  put := x.put
  take := x.take
  finish s := (x.finish s).map f

/-- The members of both, in order. -/
protected def seq {α β : Type} (f : Fields (α → β)) (x : Fields α) : Fields β where
  Slots := f.Slots × x.Slots
  empty := (f.empty, x.empty)
  names := f.names ++ x.names
  put k s := match f.put k s.1 with
    | some r => some fun d => (r d).map (·, s.2)
    | none => (x.put k s.2).map fun r d => (r d).map (s.1, ·)
  take short s := do
    let (a, s) ← f.take short s
    let (b, s) ← x.take short s
    .ok ((a, b), s)
  finish s := do
    let g ← f.finish s.1
    let a ← x.finish s.2
    .ok (g a)

instance : Applicative Fields where
  pure := Fields.pure
  map := Fields.map
  seq f x := Fields.seq f (x ())

/-- One member; `missing` is what stands for it when it is absent. -/
def one {α : Type} (name : String) (r : Reader α) (missing : Option α) : Fields α where
  Slots := Option α
  empty := none
  names := [name]
  put k s := if k = name then
      some fun d => if s.isSome then .error (.duplicateField name) else (r d).map some
    else none
  take short s := do
    match ← s.next? with
    | some (d, s) => .ok (some (← r d), s)
    | none => if missing.isSome then .ok (none, { s with turn := s.turn + 1 }) else .error (short s.turn)
  finish s := match s, missing with
    | some a, _ => .ok a
    | none, some a => .ok a
    | none, none => .error (.missingField name)

end Fields

/-- A member that must be there. -/
def field {α : Type} (name : String) (r : Reader α) : Fields α := Fields.one name r none

/-- A member that may be missing. -/
def fieldOr {α : Type} (name : String) (r : Reader α) (default : α) : Fields α := Fields.one name r (some default)

/-- A member that may be missing or null. -/
def fieldOpt {α : Type} (name : String) (r : Reader α) : Fields (Option α) := fieldOr name (nullable r) none

/-- How many parts a record has. -/
def elements (n : Nat) : String := toString n ++ if n = 1 then " element" else " elements"

/-- Reads a record. -/
def record {α : Type} (name : String) (fs : Fields α) : Reader α
  | .object members close => do
    let s ← members.foldlM (fun s (k, d) => do
      match fs.put (← k.key) s with
      | some r => r d
      | none =>
        d.skip
        pure s) fs.empty
    raise close.read
    fs.finish s
  | .list items close => do
    let short := fun n => Error.invalidLength n ("struct " ++ name ++ " with " ++ elements fs.names.length)
    let (s, rest) ← fs.take short ⟨items, close, 0⟩
    let a ← fs.finish s
    if rest.items.isEmpty then raise rest.close.early else .error .trailingCharacters
    .ok a
  | .deep _ => .error .tooDeep
  | .leaf l => (Doc.leaf l).refuse ("struct " ++ name)

/-! ### Any value -/

/-- The value of a scalar. -/
def Scalar.value : Scalar → Value
  | .null => .null
  | .bool b => .bool b
  | .nat n => .nat n
  | .negative n => .negative n
  | .float f => .float f
  | .string s => .string s

mutual

/-- Reads any value. -/
def Doc.value : Doc → Except Error Value
  | .leaf l => l.taken.map Scalar.value
  | .list items close => do
    let vs ← itemValues items
    raise close.read
    .ok (.list vs)
  | .object members close => do
    let ms ← memberValues members
    raise close.read
    .ok (.object ms)
  | .deep _ => .error .tooDeep

/-- Reads any items. -/
def itemValues : List Doc → Except Error (List Value)
  | [] => .ok []
  | d :: r => do
    let v ← d.value
    let vs ← itemValues r
    .ok (v :: vs)

/-- Reads any members. -/
def memberValues : List (Leaf × Doc) → Except Error (List (String × Value))
  | [] => .ok []
  | (k, d) :: r => do
    let k ← k.key
    let v ← d.value
    let ms ← memberValues r
    .ok ((k, v) :: ms)

end

mutual

/-- The document of a value. -/
def Value.doc : Value → Doc
  | .null => .scalar .null .null
  | .bool b => .scalar .plain (.bool b)
  | .nat n => .scalar .plain (.nat n)
  | .negative n => .scalar .plain (.negative n)
  | .float f => .scalar .plain (.float f)
  | .string s => .scalar .quote (.string s)
  | .list items => .list (itemDocs items) .closed
  | .object members => .object (memberDocs members) .closed

/-- The documents of items. -/
def itemDocs : List Value → List Doc
  | [] => []
  | v :: r => v.doc :: itemDocs r

/-- The documents of members. -/
def memberDocs : List (String × Value) → List (Leaf × Doc)
  | [] => []
  | (k, v) :: r => (⟨.quote, .ok (.string k), none⟩, v.doc) :: memberDocs r

end

/-- Reads a whole text; nothing may follow the value. -/
def read {α : Type} (r : Reader α) (s : String) : Except Error α := do
  let doc := Document.parse s
  let a ← r doc.root
  if doc.trailing then .error .trailingCharacters
  .ok a

end ContractMigration.Json
