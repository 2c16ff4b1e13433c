import ContractMigration.Solidity.Layout

/-! Strings, numbers and versions at the front of a text. Each function says how many characters the literal takes; a
number takes none where there is none. -/

namespace ContractMigration.Solidity

/-- Whether a character is a hexadecimal digit. -/
def isHexDigit (c : Char) : Bool := c.isDigit || ('a' ≤ c && c ≤ 'f') || ('A' ≤ c && c ≤ 'F')

/-! ### Strings -/

/-- Whether what follows a backslash is an escape. -/
def isEscape : List Char → Bool
  | 'x' :: a :: b :: _ => isHexDigit a && isHexDigit b
  | 'u' :: '\x7b' :: a :: r => isHexDigit a && (r.dropWhile isHexDigit).head? == some '\x7d'
  | 'u' :: a :: b :: c :: d :: _ => [a, b, c, d].all isHexDigit
  | c :: _ => c != 'x' && c != 'u' && !isNul c
  | [] => false

/-- What a place inside a string is in the middle of. -/
inductive StringPlace
  | text
  | lineBreak
  | lineComment
  | blockComment

/-- How far it is to the closing quote, with the quote. Behind a line break only layout may precede the quote, but behind
a comment there the string goes on. A backslash continues a line or, if `escapes` are allowed, begins an escape. -/
def StringPlace.size? (quote : Char) (escapes : Bool) : StringPlace → List Char → Option Nat
  | .text, '\\' :: '\n' :: r => (size? quote escapes .text r).map (· + 2)
  | .text, '\\' :: '\r' :: '\n' :: r => (size? quote escapes .text r).map (· + 3)
  | .text, '\\' :: '?' :: '\n' :: r => if escapes then (size? quote escapes .text r).map (· + 3) else none
  | .text, '\\' :: c :: r => if escapes && isEscape (c :: r) then (size? quote escapes .text r).map (· + 2) else none
  | .text, c :: r =>
    if c = quote then some 1
    else if c = '\\' || isNul c then none
    else (size? quote escapes (if c = '\n' then .lineBreak else .text) r).map (· + 1)
  | .lineBreak, '/' :: '/' :: r => (size? quote escapes .lineComment r).map (· + 2)
  | .lineBreak, '/' :: '*' :: r => (size? quote escapes .blockComment r).map (· + 2)
  | .lineBreak, c :: r =>
    if c = quote then some 1 else if isLayout c then (size? quote escapes .lineBreak r).map (· + 1) else none
  | .lineComment, c :: r =>
    if isNul c then none
    else (size? quote escapes (if c = '\n' then .lineBreak else if c = '\r' then .text else .lineComment) r).map (· + 1)
  | .blockComment, '*' :: '/' :: r => (size? quote escapes .text r).map (· + 2)
  | .blockComment, c :: r => if isNul c then none else (size? quote escapes .blockComment r).map (· + 1)
  | _, [] => none

/-- Whether a character opens and closes strings. -/
def isQuote (c : Char) : Bool := c == '"' || c == '\''

/-- The size of the string at the front of a text. -/
def stringSize? (escapes : Bool) : List Char → Option Nat
  | c :: r => if isQuote c then (StringPlace.text.size? c escapes r).map (· + 1) else none
  | [] => none

/-- What may come next between the quotes of a hexadecimal string. -/
inductive HexPlace
  | first
  | further
  | pair
  deriving DecidableEq

/-- How far it is to the closing quote, with the quote, past pairs of hexadecimal digits. Layout may stand anywhere
between the pairs, and one underscore between two of them. -/
def HexPlace.size? (quote : Char) : HexPlace → Gap → List Char → Option Nat
  | p, .blank, '/' :: '/' :: r => (size? quote p .lineComment r).map (· + 2)
  | p, .blank, '/' :: '*' :: r => (size? quote p .blockComment r).map (· + 2)
  | p, .lineComment, c :: r =>
    if isNul c then none else (size? quote p (if isLineEnd c then .blank else .lineComment) r).map (· + 1)
  | p, .blockComment, '*' :: '/' :: r => (size? quote p .blank r).map (· + 2)
  | p, .blockComment, c :: r => if isNul c then none else (size? quote p .blockComment r).map (· + 1)
  | p, .blank, a :: b :: r =>
    if isHexDigit a && isHexDigit b then (size? quote .further .blank r).map (· + 2)
    else if isLayout a then (size? quote p .blank (b :: r)).map (· + 1)
    else if a = '_' && p = .further then (size? quote .pair .blank (b :: r)).map (· + 1)
    else if a = quote && p ≠ .pair then some 1
    else none
  | p, .blank, [a] => if a = quote && p ≠ .pair then some 1 else none
  | _, _, [] => none

/-- The size of the quoted part of a hexadecimal string at the front of a text. -/
def hexStringSize? : List Char → Option Nat
  | c :: r => if isQuote c then (HexPlace.first.size? c .blank r).map (· + 1) else none
  | [] => none

/-! ### Numbers -/

/-- Whether a character is a decimal digit or an underscore. -/
def isDigitOrGap (c : Char) : Bool := c.isDigit || c == '_'

/-- The size of the decimal digits at the front of a text. -/
def digitsSize (s : List Char) : Nat := (s.takeWhile isDigitOrGap).length

/-- The size of a fraction: a point and digits. -/
def fractionSize : List Char → Nat
  | '.' :: r => if digitsSize r = 0 then 0 else digitsSize r + 1
  | _ => 0

/-- The size of an exponent: its mark, perhaps a minus sign, and digits. -/
def exponentSize : List Char → Nat
  | e :: r =>
    let sign := if r.head? = some '-' then 1 else 0
    let digits := digitsSize (r.drop sign)
    if (e = 'e' ∨ e = 'E') ∧ digits ≠ 0 then 1 + sign + digits else 0
  | [] => 0

/-- The size of a decimal number, which has digits in front of the point or behind it. -/
def decimalSize (s : List Char) : Nat :=
  let whole := digitsSize s
  let part := whole + fractionSize (s.drop whole)
  if part = 0 then 0 else part + exponentSize (s.drop part)

/-- The size of hexadecimal digits, each perhaps with one underscore behind it. -/
def hexDigitsSize : List Char → Nat
  | c :: '_' :: r => if isHexDigit c then hexDigitsSize r + 2 else 0
  | c :: r => if isHexDigit c then hexDigitsSize r + 1 else 0
  | [] => 0

/-- The size of a hexadecimal number. -/
def hexSize : List Char → Nat
  | '0' :: x :: r => if (x = 'x' ∨ x = 'X') ∧ hexDigitsSize r ≠ 0 then hexDigitsSize r + 2 else 0
  | _ => 0

/-- The size of the number at the front of a text. -/
def numberSize (s : List Char) : Nat := max (decimalSize s) (hexSize s)

/-- The size of the number of an assembly block: no underscores, no fraction, no zeros in front. -/
def plainNumberSize : List Char → Nat
  | '0' :: 'x' :: r => (r.takeWhile isHexDigit).length + 2
  | '0' :: _ => 1
  | s => (s.takeWhile Char.isDigit).length

/-! ### Versions -/

/-- A part of a version number. -/
def isVersionChar (c : Char) : Bool := c.isDigit || c == '*'

/-- One, if the text begins with that character. -/
def charSize (c : Char) (s : List Char) : Nat := if s.head? = some c then 1 else 0

/-- The size of the parts at the front of a text. -/
def partsSize (s : List Char) : Nat := (s.takeWhile isVersionChar).length

/-- The size of the third part of a version with its point. -/
def patchSize : List Char → Nat
  | '.' :: r => if partsSize r = 0 then 0 else partsSize r + 1
  | _ => 0

/-- The size of the second and third part of a version with their points; single spaces may stand around the second. -/
def minorSize : List Char → Nat
  | '.' :: r =>
    let gap := charSize ' ' r
    let parts := partsSize (r.drop gap)
    let rest := r.drop (gap + parts)
    let gap' := charSize ' ' rest
    if parts = 0 then 0 else 1 + gap + parts + gap' + patchSize (rest.drop gap')
  | _ => 0

/-- The size of a version, perhaps in quotes. -/
def versionSize? (s : List Char) : Option Nat :=
  let quote := charSize '"' s
  let point := quote + charSize '.' (s.drop quote)
  let gap := point + charSize ' ' (s.drop point)
  let major := partsSize (s.drop gap)
  let parts := gap + major + minorSize (s.drop (gap + major))
  if major = 0 then none else some (parts + charSize '"' (s.drop parts))

end ContractMigration.Solidity
