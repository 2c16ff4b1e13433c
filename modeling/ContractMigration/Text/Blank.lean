/-! White space as Unicode's property of that name lists it, and the cutting of white space at the ends of a text.
Characters are read as code points, so the table is complete: five ranges and seven single characters. -/

namespace ContractMigration.Text

/-- The code points with the property White_Space. -/
def isBlank (c : Char) : Bool :=
  (0x09 ≤ c.val && c.val ≤ 0x0d) || c.val == 0x20 || c.val == 0x85 || c.val == 0xa0 || c.val == 0x1680 ||
  (0x2000 ≤ c.val && c.val ≤ 0x200a) || c.val == 0x2028 || c.val == 0x2029 || c.val == 0x202f ||
  c.val == 0x205f || c.val == 0x3000

/-- Drops white space in front. -/
def dropBlank (s : List Char) : List Char := s.dropWhile isBlank

/-- Drops the last characters that satisfy `p`. -/
def dropWhileEnd (p : Char → Bool) (s : List Char) : List Char := (s.reverse.dropWhile p).reverse

/-- Drops white space at both ends. -/
def trimChars (s : List Char) : List Char := dropWhileEnd isBlank (dropBlank s)

/-- Drops white space at both ends of a text. -/
def trim (s : String) : String := String.ofList (trimChars s.toList)

/-- The first `n` characters of the trimmed text. -/
def truncate (s : String) (n : Nat) : String := String.ofList ((trimChars s.toList).take n)

end ContractMigration.Text
