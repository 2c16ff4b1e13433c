import ContractMigration.Text.Segments

/-! What stands between the tokens of a source: white space and comments. Sizes are counted in characters, so that a
text falls apart at a number. -/

namespace ContractMigration.Solidity

/-- Characters that only separate tokens. -/
def isLayout (c : Char) : Bool :=
  c == ' ' || c == '\n' || c == '\t' || c == '\r' || c == '\x0b' || c == '\x0c' ||
  c == '\u00a0' || c == '\u200b' || c == '\u2060' || c == '\ufeff'

/-- The character that no token and no comment may hold. -/
def isNul (c : Char) : Bool := c == '\x00'

/-- Whether a character ends a line comment and belongs to the layout itself. -/
def isLineEnd (c : Char) : Bool := c == '\n' || c == '\r'

/-- What a place between two tokens is in the middle of. -/
inductive Gap
  | blank
  | lineComment
  | blockComment

/-- How much layout stands at the front of a text that begins inside a gap. A block comment has to be closed. -/
def Gap.size? : Gap → List Char → Option Nat
  | .blank, '/' :: '/' :: r => (size? .lineComment r).map (· + 2)
  | .blank, '/' :: '*' :: r => some (((size? .blockComment r).map (· + 2)).getD 0)
  | .blank, c :: r => if isLayout c then (size? .blank r).map (· + 1) else some 0
  | .lineComment, c :: r =>
    if isNul c then some 0 else (size? (if isLineEnd c then .blank else .lineComment) r).map (· + 1)
  | .blockComment, '*' :: '/' :: r => (size? .blank r).map (· + 2)
  | .blockComment, c :: r => if isNul c then none else (size? .blockComment r).map (· + 1)
  | .blockComment, [] => none
  | _, [] => some 0

/-- How much layout stands at the front of a text. -/
def layoutSize (s : List Char) : Nat := (Gap.blank.size? s).getD 0

/-- The white space behind the last comment of a piece of layout. -/
def lastBlank (s : List Char) : List Char := (s.reverse.takeWhile isLayout).reverse

end ContractMigration.Solidity
