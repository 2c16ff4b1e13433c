/-! Texts as characters: cutting at a separator and joining again, prefixes and suffixes, replacing one character
by another. Everything works on lists of characters; the forms on `String` only convert. -/

namespace ContractMigration.Text

/-- The pieces between the occurrences of `sep`; there is always at least one. -/
def segments (sep : Char) : List Char → List (List Char)
  | [] => [[]]
  | c :: r =>
    if c = sep then [] :: segments sep r
    else match segments sep r with
      | [] => [[c]]
      | s :: ss => (c :: s) :: ss

/-- The pieces with `sep` between each two of them. -/
def joinWith (sep : List Char) : List (List Char) → List Char
  | [] => []
  | [s] => s
  | s :: t :: r => s ++ sep ++ joinWith sep (t :: r)

/-- Every `a` becomes `b`. -/
def replaceChar (a b : Char) (s : List Char) : List Char := s.map fun c => if c = a then b else c

/-- What follows `pre`, if the text begins with it. -/
def stripStart? : List Char → List Char → Option (List Char)
  | [], s => some s
  | _ :: _, [] => none
  | p :: ps, c :: s => if p = c then stripStart? ps s else none

/-- What precedes `suf`, if the text ends with it. -/
def stripEnd? (suf s : List Char) : Option (List Char) :=
  (stripStart? suf.reverse s.reverse).map List.reverse

/-- Whether the text begins with `pre`. -/
def startsWith (pre s : List Char) : Bool := (stripStart? pre s).isSome

/-- Whether the text ends with `suf`. -/
def endsWith (suf s : List Char) : Bool := (stripEnd? suf s).isSome

/-- What stands before and after the first occurrence of `c`. -/
def cutAt? (c : Char) : List Char → Option (List Char × List Char)
  | [] => none
  | d :: r => if d = c then some ([], r) else (cutAt? c r).map fun (a, b) => (d :: a, b)

/-- Whether `pat` stands somewhere in the text. -/
def contains (pat : List Char) : List Char → Bool
  | [] => pat.isEmpty
  | c :: r => startsWith pat (c :: r) || contains pat r

/-- Drops the characters that satisfy `p` at both ends. -/
def trimWhere (p : Char → Bool) (s : List Char) : List Char :=
  ((s.dropWhile p).reverse.dropWhile p).reverse

/-- The texts with `sep` between each two of them. -/
def join (sep : String) (ss : List String) : String :=
  String.ofList (joinWith sep.toList (ss.map String.toList))

end ContractMigration.Text
