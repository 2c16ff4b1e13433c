import ContractMigration.Solidity.Tree

/-! Grammars as data. A rule reads phrases from a place in a source on; alternatives are tried in order and the first that
fits is taken. A rule may look at what follows without reading it: `ahead` asks for it and `absent` excludes it. Rules
refer to each other by name, and a bound on the depth of references makes reading total. -/

namespace ContractMigration.Solidity

/-- A rule whose references are of type `N`. -/
inductive Rule (N : Type)
  | empty
  | fail
  | token (p : Pattern)
  | seq (a b : Rule N)
  | alt (a b : Rule N)
  | opt (a : Rule N)
  | many (a : Rule N)
  | ahead (a : Rule N)
  | absent (a : Rule N)
  | phrase (p : Phrase) (a : Rule N)
  | ref (n : N)

namespace Rule

/-- Reads a rule from a place on: the trees of what it reads, and the place behind. `depth` bounds nesting and repetition
together. -/
def parse {N : Type} (grammar : N → Rule N) : (depth : Nat) → Rule N → Cursor → Option (List Tree × Cursor)
  | 0, _, _ => none
  | depth + 1, r, c =>
    match r with
    | empty => some ([], c)
    | fail => none
    | token p => (p.read? c).map fun (t, c) => ([.leaf t], c)
    | seq a b => do
      let (xs, c) ← parse grammar depth a c
      let (ys, c) ← parse grammar depth b c
      some (xs ++ ys, c)
    | alt a b => match parse grammar depth a c with
      | some r => some r
      | none => parse grammar depth b c
    | opt a => match parse grammar depth a c with
      | some r => some r
      | none => some ([], c)
    | many a => match parse grammar depth a c with
      | some (xs, c) => do
        let (ys, c) ← parse grammar depth (many a) c
        some (xs ++ ys, c)
      | none => some ([], c)
    | ahead a => match parse grammar depth a c with
      | some _ => some ([], c)
      | none => none
    | absent a => match parse grammar depth a c with
      | some _ => none
      | none => some ([], c)
    | phrase p a => do
      let (xs, c) ← parse grammar depth a c
      some ([.node p xs], c)
    | ref n => parse grammar depth (grammar n) c

/-- The rules one after the other. -/
def all {N : Type} : List (Rule N) → Rule N
  | [] => empty
  | [a] => a
  | a :: r => seq a (all r)

/-- The first of the rules that fits. -/
def any {N : Type} : List (Rule N) → Rule N
  | [] => fail
  | [a] => a
  | a :: r => alt a (any r)

/-- The second rule where the first one does not fit. -/
def excluding {N : Type} (a b : Rule N) : Rule N := seq (absent a) b

/-- One or more. -/
def many1 {N : Type} (a : Rule N) : Rule N := seq a (many a)

/-- What is read by the rule has to go on with the second one wherever it begins like the first one. -/
def committed {N : Type} (start a : Rule N) : Rule N := alt a (absent start)

/-- A first item and further ones, with commas between them and perhaps one behind. -/
def commaListOf {N : Type} (first further : Rule N) : Rule N :=
  all [first, many (seq (token (.symbol ",")) further), opt (token (.symbol ","))]

/-- One or more, with commas between them and perhaps one behind. -/
def commaList1 {N : Type} (a : Rule N) : Rule N := commaListOf a a

/-- Any number, with commas between them and perhaps one behind. -/
def commaList {N : Type} (a : Rule N) : Rule N := opt (commaList1 a)

end Rule

end ContractMigration.Solidity
