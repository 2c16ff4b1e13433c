import ContractMigration.Solidity.Literal

/-! Tokens of a source. Where a text is cut depends on what may stand there: quotes behind `hex` hold pairs of digits,
an underscore may begin a number only where an operand is expected, assembly blocks have plain numbers. So a token is read
from a place by a pattern that says what is expected. Every token keeps the white space and the comments in front of it,
so the text between two tokens can be put together again. -/

namespace ContractMigration.Solidity

/-- A token and the layout in front of it. -/
structure Token where
  leading : String
  text : String
  deriving DecidableEq

/-- First characters of words. -/
def isWordStart (c : Char) : Bool := c.isAlpha || c == '$' || c == '_'

/-- Further characters of words. -/
def isWordChar (c : Char) : Bool := c.isAlphanum || c == '$' || c == '_'

/-- The word at the front of a text. -/
def frontWord : List Char → List Char
  | c :: r => if isWordStart c then c :: r.takeWhile isWordChar else []
  | [] => []

/-- A place between two tokens: the layout there, the word behind it, if there is one, and the text behind the layout. -/
structure Cursor where
  lead : List Char
  word : String
  text : List Char

namespace Cursor

/-- The place at the front of a text. -/
def ofText (s : List Char) : Cursor :=
  let text := s.drop (layoutSize s)
  ⟨s.take (layoutSize s), String.ofList (frontWord text), text⟩

/-- Whether no token follows. -/
def isEnd (c : Cursor) : Bool := c.text.isEmpty

/-- The token of the next `n` characters, and the place behind it. -/
def advance (c : Cursor) (n : Nat) : Token × Cursor :=
  (⟨String.ofList c.lead, String.ofList (c.text.take n)⟩, ofText (c.text.drop n))

/-- The size of the number at a place, if it is longer than the word there. -/
def numberSize? (c : Cursor) : Option Nat :=
  if c.word.length < numberSize c.text then some (numberSize c.text) else none

end Cursor

/-! ### Words for types -/

/-- The words for bit sizes in steps of eight. -/
def bitSizes : List String := (List.range 32).map fun i => toString (8 * (i + 1))

/-- The words for byte sizes. -/
def byteSizes : List String := (List.range 32).map fun i => toString (i + 1)

/-- Whether a word is `stem`, alone or with one of the sizes. -/
def isSizedIn (stem : String) (sizes : List String) (w : String) : Bool :=
  match Text.stripStart? stem.toList w.toList with
  | some [] => true
  | some ds => sizes.contains (String.ofList ds)
  | none => false

/-- Whether a word is `stem`, alone or with two counts joined by an `x`. -/
def isFixedPoint (stem : String) (w : String) : Bool :=
  match Text.stripStart? stem.toList w.toList with
  | some [] => true
  | some ds => match Text.segments 'x' ds with
    | [a, b] => !a.isEmpty && !b.isEmpty && a.all Char.isDigit && b.all Char.isDigit
    | _ => false
  | none => false

/-- Whether a word is a type that the language has without declaration. -/
def isElementary (w : String) : Bool :=
  ["address", "bool", "string", "var", "byte"].contains w || isSizedIn "uint" bitSizes w || isSizedIn "int" bitSizes w ||
    isSizedIn "bytes" byteSizes w || isFixedPoint "fixed" w || isFixedPoint "ufixed" w

/-! ### Patterns -/

/-- What a single token has to be. -/
inductive Pattern
  | word (w : String)
  | wordIn (ws : List String)
  | name
  | operandName
  | elementaryType
  | symbol (s : String)
  | symbolIn (ss : List String)
  | number
  | plainNumber
  | string
  | plainString
  | hexString
  | version
  | pragmaValue

/-- The size of a symbol, if the text begins with it. -/
def symbolSize? (s : String) (text : List Char) : Option Nat :=
  (Text.stripStart? s.toList text).map fun _ => s.length

namespace Pattern

/-- The size of the word at a place, if there is one and it passes the test. -/
def wordSize? (c : Cursor) (test : Bool) : Option Nat :=
  if c.word ≠ "" ∧ test then some c.word.length else none

/-- How many characters of the text at a place a token of this kind takes. A word is a name even where it has a meaning
elsewhere; where an operand is expected it must not be the beginning of a number. -/
def size? (p : Pattern) (c : Cursor) : Option Nat :=
  match p with
  | word w => wordSize? c (c.word == w)
  | wordIn ws => wordSize? c (ws.contains c.word)
  | name => wordSize? c true
  | operandName => wordSize? c c.numberSize?.isNone
  | elementaryType => wordSize? c (isElementary c.word)
  | symbol s => symbolSize? s c.text
  | symbolIn ss => ss.findSome? fun s => symbolSize? s c.text
  | number => c.numberSize?
  | plainNumber => if plainNumberSize c.text = 0 then none else some (plainNumberSize c.text)
  | string => stringSize? true c.text
  | plainString => stringSize? false c.text
  | hexString => hexStringSize? c.text
  | version => versionSize? c.text
  | pragmaValue =>
    let size := (c.text.takeWhile fun x => x != ';' && !isNul x).length
    if size = 0 ∧ lastBlank c.lead = [] then none else some size

/-- Whether a token of this kind stands at a place. -/
def fits (p : Pattern) (c : Cursor) : Bool := (p.size? c).isSome

/-- The token of this kind at a place, and the place behind it. -/
def read? (p : Pattern) (c : Cursor) : Option (Token × Cursor) := (p.size? c).map c.advance

end Pattern

end ContractMigration.Solidity
