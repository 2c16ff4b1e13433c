import ContractMigration.Text.Blank
import ContractMigration.Text.Segments

/-! Fenced blocks in a text: three backticks, a tag, the end of the line, a body, and three backticks. Replies that wrap
their content in such a block are read as the content. -/

namespace ContractMigration.Text

/-- Three backticks. -/
def fence : List Char := ['\x60', '\x60', '\x60']

/-- Characters of the tag behind an opening fence. -/
def isTagChar (c : Char) : Bool := c.isAlphanum || c == '_' || c == '-'

/-- What follows the end of the line that an opening fence begins. -/
def afterOpening? (s : List Char) : Option (List Char) := do
  let r ← stripStart? fence s
  let r := (r.dropWhile isTagChar).dropWhile fun c => c == ' ' || c == '\t'
  match r with
  | '\r' :: '\n' :: r => some r
  | '\n' :: r => some r
  | _ => none

/-- What precedes the first occurrence of `pat`. -/
def before? (pat : List Char) : List Char → Option (List Char)
  | [] => if pat.isEmpty then some [] else none
  | c :: r => if startsWith pat (c :: r) then some [] else (before? pat r).map (c :: ·)

/-- The body of the block that begins here. -/
def blockHere? (s : List Char) : Option (List Char) := (afterOpening? s).bind (before? fence)

/-- The body of the first block. -/
def firstBlock? : List Char → Option (List Char)
  | [] => none
  | c :: r => match blockHere? (c :: r) with
    | some b => some b
    | none => firstBlock? r

/-- The trimmed body of the first block, or the trimmed text if there is none. -/
def unfenced (s : List Char) : List Char := trimChars ((firstBlock? s).getD s)

end ContractMigration.Text
