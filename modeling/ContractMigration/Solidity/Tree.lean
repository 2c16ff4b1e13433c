import ContractMigration.Solidity.Token

/-! Trees over the tokens of a source. Leaves are tokens; nodes carry the kind of phrase that their children form. The
text of a tree is what stands in the source from its first to its last token. -/

namespace ContractMigration.Solidity

/-- The kinds of phrase that are told apart. -/
inductive Phrase
  | importDirective
  | contract
  | interface
  | library
  | name
  | parent
  | body
  | function
  | stateVariable
  | constructor
  | modifier
  | fallback
  | struct
  | enum
  | event
  | error
  | typeName
  | parameter
  | returns
  | visibility
  | mutability
  | constantMark
  | immutableMark
  | abstractMark
  deriving DecidableEq

/-- A phrase of a source. -/
inductive Tree
  | leaf (token : Token)
  | node (phrase : Phrase) (children : List Tree)

namespace Tree

/-- The kind of phrase; a token is none. -/
def phrase? : Tree → Option Phrase
  | leaf _ => none
  | node p _ => some p

def children : Tree → List Tree
  | leaf _ => []
  | node _ ts => ts

mutual

/-- The tokens of a tree in order. -/
def tokens : Tree → List Token
  | leaf t => [t]
  | node _ ts => tokensOf ts

/-- The tokens of several trees in order. -/
def tokensOf : List Tree → List Token
  | [] => []
  | t :: r => t.tokens ++ tokensOf r

end

/-- The text from the first token to the last one. -/
def textOf : List Token → List Char
  | [] => []
  | t :: r => t.text.toList ++ r.flatMap fun u => u.leading.toList ++ u.text.toList

/-- The text of a tree in the source. -/
def text (t : Tree) : String := String.ofList (textOf t.tokens)

/-- The first child of that kind. -/
def child? (t : Tree) (p : Phrase) : Option Tree := t.children.find? fun c => c.phrase? == some p

/-- Whether some child is of that kind. -/
def has (t : Tree) (p : Phrase) : Bool := (t.child? p).isSome

/-- How many children are of that kind. -/
def count (t : Tree) (p : Phrase) : Nat := (t.children.filter fun c => c.phrase? == some p).length

end Tree

end ContractMigration.Solidity
