import ContractMigration.Checkout.Glob
import ContractMigration.Digest.Sha256
import ContractMigration.Text.Blank
import ContractMigration.Text.Segments

/-! Rules for files to be left out, one on a line. A rule is a pattern for the path below the directory in which the rule
stands; stars do not reach over slashes, and two stars between slashes stand for any directories. A rule with an
exclamation mark takes back what rules before it said, and one with a slash at its end is about directories only.
Patterns are matched byte by byte. -/

namespace ContractMigration

/-- A part of a pattern. -/
inductive Piece
  | byte (b : UInt8)
  | any
  | star
  | leadingDirs
  | trailingDirs
  | innerDirs
  | oneOf (negated : Bool) (ranges : List (UInt8 × UInt8))
  | choice (options : List (List Piece))

namespace Piece

def slash : UInt8 := 47

/-- Whether `k` holds behind some run of bytes that satisfy `p`. -/
def run (p : UInt8 → Bool) (k : List UInt8 → Bool) : List UInt8 → Bool
  | [] => k []
  | c :: r => k (c :: r) || (p c && run p k r)

/-- Whether `k` holds behind some slash. -/
def behindSlash (k : List UInt8 → Bool) : List UInt8 → Bool
  | [] => false
  | c :: r => (c == slash && k r) || behindSlash k r

/-- Whether `k` holds behind a first byte that satisfies `p`. -/
def first (p : UInt8 → Bool) (k : List UInt8 → Bool) : List UInt8 → Bool
  | [] => false
  | c :: r => p c && k r

mutual

/-- Whether a piece fits the front of a path and `k` holds of what follows. -/
def fits : Piece → (List UInt8 → Bool) → List UInt8 → Bool
  | .byte b, k, s => first (· == b) k s
  | .any, k, s => first (· != slash) k s
  | .star, k, s => run (· != slash) k s
  | .leadingDirs, k, s => k s || behindSlash k s
  | .trailingDirs, k, s => first (· == slash) (run (fun _ => true) k) s
  | .innerDirs, k, s => first (· == slash) (fun r => k r || behindSlash k r) s
  | .oneOf negated ranges, k, s =>
    first (fun c => (ranges.any fun (a, b) => a ≤ c && c ≤ b) != negated) k s
  | .choice options, k, s => (options.all List.isEmpty && k s) || fitsSome options k s

/-- Whether some option that is not empty fits the front. -/
def fitsSome : List (List Piece) → (List UInt8 → Bool) → List UInt8 → Bool
  | [], _, _ => false
  | o :: r, k, s => (!o.isEmpty && fitsAll o k s) || fitsSome r k s

/-- Whether pieces fit the front, one after the other. -/
def fitsAll : List Piece → (List UInt8 → Bool) → List UInt8 → Bool
  | [], k, s => k s
  | p :: ps, k, s => fits p (fun r => fitsAll ps k r) s

end

/-- Whether pieces fit a whole path. -/
def fitsPath (ps : List Piece) (path : List UInt8) : Bool :=
  match ps with
  | [.leadingDirs] => true
  | ps => fitsAll ps List.isEmpty path

/-- A character as itself. -/
def literal (c : Char) : List Piece := (Digest.utf8 (String.singleton c)).map .byte

end Piece

/-! ### Reading patterns -/

/-- The bytes that a range of characters spans in a class. -/
def classRange (a b : Char) : List (UInt8 × UInt8) :=
  let single := fun (x : UInt8) => (x, x)
  let low := Digest.utf8 (String.singleton a)
  let high := Digest.utf8 (String.singleton b)
  if a = b then low.map single
  else match low.getLast?, high with
    | some l, h :: rest => low.dropLast.map single ++ (l, h) :: rest.map single
    | _, _ => []

/-- What begins with an opening bracket: a class and what follows it, a bracket that stands for itself because it is never
closed, or a range that runs backwards. -/
inductive ClassText
  | closed (ranges : List (Char × Char)) (rest : List Char)
  | unclosed
  | backwards

/-- Reads a class behind its opening bracket and its mark; `ranges` is in reverse order. -/
def readClass (first inRange : Bool) (ranges : List (Char × Char)) : List Char → ClassText
  | [] => .unclosed
  | c :: r =>
    if c = ']' ∧ !first then
      .closed (if inRange then ('-', '-') :: ranges else ranges).reverse r
    else if c = '-' ∧ !first ∧ !inRange then readClass false true ranges r
    else match inRange, ranges with
      | true, (a, _) :: rest => if c < a then .backwards else readClass false false ((a, c) :: rest) r
      | _, _ => readClass false false ((c, c) :: ranges) r

/-- What two stars stand for, and what of the text follows. `acc` is what was read before, in reverse order, `prev` the
character before the stars, and `inner` says whether they stand in a choice. -/
def doubleStar (inner : Bool) (acc : List Piece) (prev : Option Char) (r : List Char) :
    List Piece × Option Char × List Char :=
  let plain := (.star :: .star :: acc, some '*', r)
  let instead := fun (p : Piece) => match acc with
    | .leadingDirs :: _ => acc
    | .trailingDirs :: _ => acc
    | _ :: before => p :: before
    | [] => [p]
  if acc.isEmpty then
    match r with
    | [] => ([.leadingDirs], some '*', [])
    | '/' :: r => ([.leadingDirs], some '/', r)
    | _ => plain
  else if prev != some '/' then plain
  else match r with
    | [] => (instead .trailingDirs, some '*', [])
    | '/' :: r => (instead .innerDirs, some '/', r)
    | c :: _ => if inner && (c == ',' || c == '\x7d') then (instead .trailingDirs, some '*', r) else plain

mutual

/-- Reads pieces to the end, or in a choice to the end of an option. -/
def readPieces : (fuel : Nat) → (inner : Bool) → List Piece → Option Char → List Char → Option (List Piece × List Char)
  | 0, _, _, _, _ => none
  | _ + 1, inner, acc, _, [] => if inner then none else some (acc.reverse, [])
  | fuel + 1, inner, acc, prev, c :: r =>
    let go := fun (acc : List Piece) (r : List Char) => readPieces fuel inner acc (some c) r
    if c = '?' then go (.any :: acc) r
    else if c = '*' then
      match r with
      | '*' :: r =>
        let (acc, prev, r) := doubleStar inner acc prev r
        readPieces fuel inner acc prev r
      | _ => go (.star :: acc) r
    else if c = '[' then
      let (negated, body) := match r with
        | '!' :: r => (true, r)
        | '^' :: r => (true, r)
        | r => (false, r)
      match readClass true false [] body with
      | .backwards => none
      | .unclosed => go (.byte 91 :: acc) r
      | .closed ranges r =>
        readPieces fuel inner (.oneOf negated (ranges.flatMap fun (a, b) => classRange a b) :: acc) (some ']') r
    else if c = '\x7b' then
      match readOptions fuel c r with
      | none => none
      | some (options, r) => readPieces fuel inner (.choice options :: acc) (some '\x7d') r
    else if c = '\x7d' then if inner then some (acc.reverse, c :: r) else none
    else if c = ',' ∧ inner then some (acc.reverse, c :: r)
    else if c = '\\' then
      match r with
      | [] => none
      | d :: r => readPieces fuel inner ((Piece.literal d).reverse ++ acc) (some d) r
    else go ((Piece.literal c).reverse ++ acc) r

/-- Reads the options of a choice; `prev` is the character in front. -/
def readOptions : (fuel : Nat) → Char → List Char → Option (List (List Piece) × List Char)
  | 0, _, _ => none
  | fuel + 1, prev, s =>
    match readPieces fuel true [] (some prev) s with
    | some (o, ',' :: r) => (readOptions fuel ',' r).map fun (os, r) => (o :: os, r)
    | some (o, _ :: r) => some ([o], r)
    | _ => none

end

/-- The pieces of a pattern, unless it is not well formed. -/
def pattern? (s : List Char) : Option (List Piece) := (readPieces (2 * s.length + 2) false [] none s).map Prod.fst

/-! ### Rules -/

/-- A rule: what it fits, whether it takes back, and whether it is about directories only. -/
structure IgnoreRule where
  pieces : List Piece
  takesBack : Bool
  onlyDirs : Bool

/-- What rules say of a path. -/
inductive Verdict
  | left
  | kept
  deriving DecidableEq

namespace IgnoreRule

/-- A line without white space at its end, unless that is escaped. -/
def trimLine (line : List Char) : List Char :=
  if Text.endsWith ['\\', ' '] line then line else Text.dropWhileEnd Text.isBlank line

/-- The pattern of a rule in full: without a slash inside it may fit at any depth, and what is below a directory is not
the directory. -/
def fullPattern (anchored : Bool) (s : List Char) : List Char :=
  let s := if anchored || s.contains '/' || s = "**".toList then s else "**/".toList ++ s
  if Text.endsWith "/**".toList s then s ++ "/*".toList else s

/-- The rule on a line; a comment, an empty line, or one that is not well formed is none. -/
def ofLine? (line : List Char) : Option IgnoreRule := do
  if Text.startsWith ['#'] line then none
  let line := trimLine line
  if line.isEmpty then none
  let escaped := Text.startsWith ['\\', '!'] line || Text.startsWith ['\\', '#'] line
  let takesBack := !escaped && Text.startsWith ['!'] line
  let line := if escaped || takesBack then line.drop 1 else line
  let anchored := Text.startsWith ['/'] line
  let line := if anchored && !escaped then line.drop 1 else line
  let onlyDirs := Text.endsWith ['/'] line
  let line := if onlyDirs then
      let bare := line.dropLast
      if Text.endsWith ['\\'] bare then bare.dropLast else bare
    else line
  let pieces ← pattern? (fullPattern anchored line)
  some ⟨pieces, takesBack, onlyDirs⟩

/-- The characters of a line; one carriage return at its end belongs to the line break. -/
def lineText (s : String) : List Char := (Text.stripEnd? ['\r'] s.toList).getD s.toList

/-- The lines of a file up to the first that is not text. -/
def textLines (decode? : List UInt8 → Option String) : List (List UInt8) → List (List Char)
  | [] => []
  | l :: r => match decode? l with
    | some s => lineText s :: textLines decode? r
    | none => []

/-- The pieces of bytes between line feeds. -/
def splitLines : List UInt8 → List (List UInt8)
  | [] => [[]]
  | b :: r =>
    if b = 10 then [] :: splitLines r
    else match splitLines r with
      | [] => [[b]]
      | l :: ls => (b :: l) :: ls

/-- The rules in a file; a mark of the byte order in front of the first line is passed over. -/
def ofBytes (decode? : List UInt8 → Option String) (bytes : List UInt8) : List IgnoreRule :=
  match textLines decode? (splitLines bytes) with
  | [] => []
  | first :: rest => (first.dropWhile (· == '\ufeff') :: rest).filterMap ofLine?

/-- Whether a rule is about a path. -/
def applies (r : IgnoreRule) (path : List UInt8) (isDir : Bool) : Bool :=
  (isDir || !r.onlyDirs) && Piece.fitsPath r.pieces path

/-- What the last rule about a path says. -/
def verdict (rules : List IgnoreRule) (path : List UInt8) (isDir : Bool) : Option Verdict :=
  (rules.reverse.find? fun r => r.applies path isDir).map fun r => if r.takesBack then .kept else .left

end IgnoreRule

end ContractMigration
