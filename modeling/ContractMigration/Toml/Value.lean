import ContractMigration.Clock.Timestamp
import ContractMigration.Toml.Table

/-! Values of configuration files: strings in four forms, numbers, dates, arrays and inline tables. A date has no use
here and is kept as a table without members. -/

namespace ContractMigration.Toml

open Json (Value)

def isBlank (c : Char) : Bool := c == ' ' || c == '\t'

def dropBlank (s : List Char) : List Char := s.dropWhile isBlank

/-- Characters that may stand in strings and comments. -/
def isPlain (c : Char) : Bool := c == '\t' || (0x20 ≤ c.val && c.val != 0x7f)

/-- Drops a comment, if the text begins with one; a control character in it is a fault. -/
def dropComment? (s : List Char) : Option (List Char) :=
  match s with
  | '#' :: r =>
    let rest := r.dropWhile isPlain
    match rest with
    | [] | '\n' :: _ | '\r' :: '\n' :: _ => some rest
    | _ => none
  | s => some s

/-- Drops a line break, if the text begins with one. -/
def dropBreak? : List Char → Option (List Char)
  | '\n' :: r => some r
  | '\r' :: '\n' :: r => some r
  | _ => none

/-- Drops white space, line breaks and comments. -/
def dropLayout? : Nat → List Char → Option (List Char)
  | 0, s => some s
  | fuel + 1, s => do
    let s ← dropComment? (dropBlank s)
    match dropBreak? s with
    | some r => dropLayout? fuel r
    | none => some s

/-! ### Strings -/

/-- Hexadecimal digits as a character. -/
def codePoint? (ds : List Char) : Option Char := do
  let vs ← ds.mapM Json.hexDigit?
  let n := vs.foldl (fun a d => a * 16 + d) 0
  if n < 0xd800 ∨ (0xdfff < n ∧ n ≤ 0x10ffff) then some (Char.ofNat n) else none

/-- The character of an escape behind its backslash. -/
def escape? : List Char → Option (Char × List Char)
  | 'b' :: r => some ('\x08', r)
  | 't' :: r => some ('\t', r)
  | 'n' :: r => some ('\n', r)
  | 'f' :: r => some ('\x0c', r)
  | 'r' :: r => some ('\r', r)
  | '"' :: r => some ('"', r)
  | '\\' :: r => some ('\\', r)
  | 'u' :: r => if r.length < 4 then none else (codePoint? (r.take 4)).map (·, r.drop 4)
  | 'U' :: r => if r.length < 8 then none else (codePoint? (r.take 8)).map (·, r.drop 8)
  | _ => none

/-- A string in double quotes, behind the first. -/
def basicString? : Nat → List Char → Option ((List Char) × List Char)
  | 0, _ => none
  | _, [] => none
  | _, '"' :: r => some ([], r)
  | fuel + 1, '\\' :: r => do
    let (c, r) ← escape? r
    let (cs, r) ← basicString? fuel r
    some (c :: cs, r)
  | fuel + 1, c :: r => do
    if !isPlain c then none
    let (cs, r) ← basicString? fuel r
    some (c :: cs, r)

/-- A string in single quotes, behind the first. -/
def literalString? : List Char → Option ((List Char) × List Char)
  | [] => none
  | '\'' :: r => some ([], r)
  | c :: r => if isPlain c then (literalString? r).map fun (cs, r) => (c :: cs, r) else none

/-- Closes a string of several lines: three quotes and at most two more that belong to it. -/
def closeLong? (q : Char) (s : List Char) : Option ((List Char) × List Char) :=
  let n := (s.takeWhile (· == q)).length
  if 3 ≤ n then
    let extra := min (n - 3) 2
    some (List.replicate extra q, s.drop (3 + extra))
  else none

/-- Drops white space and line breaks. -/
def dropBlankLines : List Char → List Char
  | '\n' :: r => dropBlankLines r
  | '\r' :: '\n' :: r => dropBlankLines r
  | c :: r => if isBlank c then dropBlankLines r else c :: r
  | [] => []

/-- What follows a backslash at the end of a line: all white space and line breaks are passed over. -/
def lineEnding? (s : List Char) : Option (List Char) := (dropBreak? (dropBlank s)).map dropBlankLines

/-- A string over several lines, behind the opening quotes. A line break in it is a single character. -/
def longString? (q : Char) : Nat → List Char → Option ((List Char) × List Char)
  | 0, _ => none
  | _, [] => none
  | fuel + 1, c :: r =>
    match if c = q then closeLong? q (c :: r) else none with
    | some done => some done
    | none =>
      if c = '\\' ∧ q = '"' then
        match lineEnding? r with
        | some r => longString? q fuel r
        | none => do
          let (e, r) ← escape? r
          let (cs, r) ← longString? q fuel r
          some (e :: cs, r)
      else if c = '\r' ∧ r.head? = some '\n' then longString? q fuel r
      else do
        if !(isPlain c || c == '\n') then none
        let (cs, r) ← longString? q fuel r
        some (c :: cs, r)

/-- A string at the front of a text. -/
def string? (s : List Char) : Option ((List Char) × List Char) :=
  let long := fun (q : Char) (r : List Char) => longString? q (r.length + 1) ((dropBreak? r).getD r)
  match s with
  | '"' :: '"' :: '"' :: r => long '"' r
  | '\'' :: '\'' :: '\'' :: r => long '\'' r
  | '"' :: r => basicString? (r.length + 1) r
  | '\'' :: r => literalString? r
  | _ => none

/-! ### Numbers and dates -/

/-- Digits with single underscores between them, without these. -/
def digits? (p : Char → Bool) (s : List Char) : Option (List Char) :=
  let groups := Text.segments '_' s
  if groups.all fun g => !g.isEmpty && g.all p then some groups.flatten else none

/-- Digits of a base as a number. -/
def numeral (base : Nat) (ds : List Char) : Nat :=
  ds.foldl (fun a c => a * base + (Json.hexDigit? c).getD 0) 0

/-- An integer, if it fits sixty-four bits with a sign. -/
def integer (negative : Bool) (n : Nat) : Option Value :=
  if negative && n != 0 then if n ≤ Nat.pow 2 63 then some (.negative n) else none
  else if n < Nat.pow 2 63 then some (.nat n) else none

/-- Decimal digits of a whole number: no zero in front of others. -/
def whole? (s : List Char) : Option (List Char) := do
  let ds ← digits? Char.isDigit s
  if ds.head? == some '0' && 1 < ds.length then none else some ds

/-- Whether a double is positive and too large to be told from others. -/
def isOverflow (f : Float) : Bool := f == 1.0 / 0.0

/-- A number with a fraction or an exponent; a positive one must not be too large. -/
def float? (negative : Bool) (s : List Char) : Option Value := do
  let isMark := fun c => c == 'e' || c == 'E'
  let (body, exponent) := (s.takeWhile (!isMark ·), (s.dropWhile (!isMark ·)).drop 1)
  let hasMark := s.any isMark
  let (w, f) ← match Text.cutAt? '.' body with
    | some (w, f) => do
      let w ← whole? w
      let f ← digits? Char.isDigit f
      some (w, f)
    | none => do
      let w ← whole? body
      some (w, [])
  let e : Int ← if hasMark then match exponent with
      | '-' :: ds => (digits? Char.isDigit ds).map fun ds => -(numeral 10 ds : Int)
      | '+' :: ds => (digits? Char.isDigit ds).map fun ds => (numeral 10 ds : Int)
      | ds => (digits? Char.isDigit ds).map fun ds => (numeral 10 ds : Int)
    else some 0
  let n := numeral 10 (w ++ f)
  let e := e - f.length
  let v := Float.ofScientific n (e < 0) (min e.natAbs 5000)
  let v := if negative then -v else v
  if isOverflow v then none else some (.float v)

/-- The number that two digits make, if it is in a range, and what follows them. -/
def twoDigits? (low high : Nat) : List Char → Option (Nat × List Char)
  | a :: b :: r =>
    let n := numeral 10 [a, b]
    if a.isDigit && b.isDigit && low ≤ n && n ≤ high then some (n, r) else none
  | _ => none

/-- What follows a time of day; the second may be a leap second, and may have a fraction. -/
def afterTime? (s : List Char) : Option (List Char) := do
  let (_, s) ← twoDigits? 0 23 s
  let s ← Text.stripStart? [':'] s
  let (_, s) ← twoDigits? 0 59 s
  let s ← Text.stripStart? [':'] s
  let (_, s) ← twoDigits? 0 60 s
  match s with
  | '.' :: r => if (r.takeWhile Char.isDigit).isEmpty then none else some (r.dropWhile Char.isDigit)
  | s => some s

/-- What follows a day of the calendar. -/
def afterDay? (s : List Char) : Option (List Char) := do
  let (century, s) ← twoDigits? 0 99 s
  let (year, s) ← twoDigits? 0 99 s
  let s ← Text.stripStart? ['-'] s
  let (month, s) ← twoDigits? 1 12 s
  let s ← Text.stripStart? ['-'] s
  let (_, s) ← twoDigits? 1 (Timestamp.daysIn (century * 100 + year : Nat) month) s
  some s

/-- What follows an offset from universal time, which may be missing. -/
def afterOffset? : List Char → Option (List Char)
  | 'Z' :: r | 'z' :: r => some r
  | '+' :: r | '-' :: r => do
    let (_, r) ← twoDigits? 0 23 r
    let r ← Text.stripStart? [':'] r
    let (_, r) ← twoDigits? 0 59 r
    some r
  | s => some s

/-- Whether a text is a date, a time of day, or a date and a time with or without an offset. -/
def isDate (s : List Char) : Bool :=
  let rest := match afterDay? s with
    | some (c :: r) => if c = 'T' ∨ c = 't' ∨ c = ' ' then (afterTime? r).bind afterOffset? else none
    | some [] => some []
    | none => afterTime? s
  rest == some []

/-- A word that is neither string nor container. -/
def scalar? (s : List Char) : Option Value :=
  if s = "true".toList then some (.bool true)
  else if s = "false".toList then some (.bool false)
  else if isDate s then some (.object [])
  else
    let negative := s.head? == some '-'
    let signed := negative || s.head? == some '+'
    let body := if signed then s.drop 1 else s
    match body with
    | '0' :: 'x' :: ds => if signed then none else (digits? (Json.hexDigit? · |>.isSome) ds).bind (integer false <| numeral 16 ·)
    | '0' :: 'o' :: ds => if signed then none else (digits? (fun c => '0' ≤ c && c ≤ '7') ds).bind (integer false <| numeral 8 ·)
    | '0' :: 'b' :: ds => if signed then none else (digits? (fun c => c == '0' || c == '1') ds).bind (integer false <| numeral 2 ·)
    | _ =>
      if body = "inf".toList then some (.float (if negative then -1.0 / 0.0 else 1.0 / 0.0))
      else if body = "nan".toList then some (.float (0.0 / 0.0))
      else if body.any fun c => c == '.' || c == 'e' || c == 'E' then float? negative body
      else (whole? body).bind (integer negative <| numeral 10 ·)

/-- Characters of words. -/
def isWordChar (c : Char) : Bool := c.isAlphanum || c == '_' || c == '-' || c == '+' || c == '.' || c == ':'

/-- A word at the front of a text; a date and a time may have a space between them. -/
def splitWord (s : List Char) : List Char × List Char :=
  let w := s.takeWhile isWordChar
  let r := s.dropWhile isWordChar
  match r with
  | ' ' :: c :: _ =>
    if w.length = 10 ∧ isDate w ∧ c.isDigit then
      (w ++ ' ' :: (r.drop 1).takeWhile isWordChar, (r.drop 1).dropWhile isWordChar)
    else (w, r)
  | _ => (w, r)

/-! ### Keys and containers -/

/-- Characters of keys without quotes. -/
def isKeyChar (c : Char) : Bool := c.isAlphanum || c == '_' || c == '-'

/-- One part of a key. -/
def keyPart? (s : List Char) : Option (String × List Char) :=
  match s with
  | '"' :: r => (basicString? (r.length + 1) r).map fun (cs, r) => (String.ofList cs, r)
  | '\'' :: r => (literalString? r).map fun (cs, r) => (String.ofList cs, r)
  | s =>
    let w := s.takeWhile isKeyChar
    if w.isEmpty then none else some (String.ofList w, s.dropWhile isKeyChar)

/-- How many parts a key may have, and how many brackets may be open at once. -/
def maxDepth : Nat := 79

/-- The parts of a key with dots between them; `room` is how many there may be. -/
def parts? : (room : Nat) → List Char → Option ((List String) × List Char)
  | 0, _ => none
  | room + 1, s => do
    let (p, r) ← keyPart? (dropBlank s)
    match dropBlank r with
    | '.' :: r =>
      let (ps, r) ← parts? room r
      some (p :: ps, r)
    | r => some ([p], r)

/-- A key at the front of a text. -/
def key? (s : List Char) : Option ((List String) × List Char) := parts? maxDepth s

mutual

/-- A value at the front of a text. `room` is how many more brackets may be opened. -/
def value? (room : Nat) : (fuel : Nat) → List Char → Option (Value × List Char)
  | 0, _ => none
  | fuel + 1, s =>
    match s with
    | '[' :: r => if room = 0 then none else (items? (room - 1) fuel r).map fun (vs, r) => (.list vs, r)
    | '\x7b' :: r =>
      if room = 0 then none
      else match dropBlank r with
        | '\x7d' :: r => some (.object [], r)
        | r => (inline? (room - 1) fuel [] r).map fun (es, r) => (.object (entryValues es), r)
    | c :: _ =>
      if c = '"' ∨ c = '\'' then (string? s).map fun (cs, r) => (.string (String.ofList cs), r)
      else
        let (w, r) := splitWord s
        (scalar? w).map (·, r)
    | [] => none

/-- The items of an array up to its end. -/
def items? (room : Nat) : (fuel : Nat) → List Char → Option ((List Value) × List Char)
  | 0, _ => none
  | fuel + 1, s => do
    match ← dropLayout? (s.length + 1) s with
    | ']' :: r => some ([], r)
    | s =>
      let (v, r) ← value? room fuel s
      match ← dropLayout? (r.length + 1) r with
      | ']' :: r => some ([v], r)
      | ',' :: r =>
        let (vs, r) ← items? room fuel r
        some (v :: vs, r)
      | _ => none

/-- The members of an inline table up to its end; `es` are those in front. -/
def inline? (room : Nat) : (fuel : Nat) → (es : Entries) → List Char → Option (Entries × List Char)
  | 0, _, _ => none
  | fuel + 1, es, s => do
    let (path, r) ← key? s
    match r with
    | '=' :: r =>
      let (v, r) ← value? room fuel (dropBlank r)
      let es ← assign? true es path v
      match dropBlank r with
      | '\x7d' :: r => some (es, r)
      | ',' :: r => inline? room fuel es r
      | _ => none
    | _ => none

end

end ContractMigration.Toml
