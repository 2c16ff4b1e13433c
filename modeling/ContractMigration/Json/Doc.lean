import ContractMigration.Json.Error

/-! JSON texts read in one pass. A `Doc` is a text cut into values up to its first fault, with each fault left at its
place: whoever reads a `Doc` from left to right meets a value of the wrong shape before a fault behind it. A place may
be faulty only for some readers, so it keeps one answer for a reader that takes the value and one for a reader that
passes over it. -/

namespace ContractMigration.Json

/-- A value without parts. -/
inductive Scalar
  | null
  | bool (b : Bool)
  | nat (n : Nat)
  | negative (n : Nat)
  | float (f : Float)
  | string (s : String)

/-- How the text of a scalar begins: with a quote, with the first letter of `null`, with another character, or not. -/
inductive Start
  | quote
  | null
  | plain
  | nothing

/-- A scalar for a reader that takes it, and the fault for one that passes over it. -/
structure Leaf where
  start : Start
  taken : Except Error Scalar
  skipped : Option Error

/-- How a list or object ends: the fault met by a reader that wants the next part, by one that passes over the whole,
by one that wants the list to end here, and by one that wants the object to be the name of a variant. -/
structure Close where
  read : Option Error
  skip : Option Error
  early : Option Error
  variant : Option Error

/-- The closing bracket is there. -/
def Close.closed : Close := ⟨none, none, none, none⟩

/-- A text cut into values up to its first fault. -/
inductive Doc
  | leaf (l : Leaf)
  | list (items : List Doc) (close : Close)
  | object (members : List (Leaf × Doc)) (close : Close)
  | deep (inner : Doc)

/-- A place where no value begins and every reader meets the same fault. -/
def Doc.fault (e : Error) : Doc := .leaf ⟨.nothing, .error e, some e⟩

/-- A scalar without fault. -/
def Doc.scalar (start : Start) (s : Scalar) : Doc := .leaf ⟨start, .ok s, none⟩

/-- White space between tokens. -/
def isSpace (c : Char) : Bool := c == ' ' || c == '\n' || c == '\t' || c == '\r'

/-- Drops white space between tokens. -/
def dropSpace (s : List Char) : List Char := s.dropWhile isSpace

/-! ### Strings -/

/-- A piece of a string: a character, or a unit of sixteen bits written in hexadecimal digits. -/
inductive Piece
  | char (c : Char)
  | unit (n : Nat)

/-- The value of a hexadecimal digit. -/
def hexDigit? (c : Char) : Option Nat :=
  if '0' ≤ c ∧ c ≤ '9' then some (c.toNat - 48)
  else if 'a' ≤ c ∧ c ≤ 'f' then some (c.toNat - 87)
  else if 'A' ≤ c ∧ c ≤ 'F' then some (c.toNat - 55)
  else none

/-- The character a one-letter escape stands for. -/
def escapeValue? (c : Char) : Option Char :=
  if c = '"' then some '"'
  else if c = '\\' then some '\\'
  else if c = '/' then some '/'
  else if c = 'b' then some '\x08'
  else if c = 'f' then some '\x0c'
  else if c = 'n' then some '\n'
  else if c = 'r' then some '\r'
  else if c = 't' then some '\t'
  else none

/-- Whether at least four bytes are left. -/
def fourBytesLeft (s : List Char) : Bool := 4 ≤ (s.take 4).foldl (fun n c => n + c.utf8Size) 0

/-- The pieces up to the closing quote and what follows it. -/
def scanString : List Char → List Piece × Except Error (List Char)
  | [] => ([], .error (.ended .string))
  | '"' :: r => ([], .ok r)
  | ['\\'] => ([], .error (.ended .string))
  | '\\' :: 'u' :: a :: b :: c :: d :: r =>
    match hexDigit? a, hexDigit? b, hexDigit? c, hexDigit? d with
    | some a, some b, some c, some d =>
      let (ps, rest) := scanString r
      (.unit (((a * 16 + b) * 16 + c) * 16 + d) :: ps, rest)
    | _, _, _, _ => ([], .error .invalidHexEscape)
  | '\\' :: 'u' :: r => ([], .error (if fourBytesLeft r then .invalidHexEscape else .ended .string))
  | '\\' :: e :: r =>
    match escapeValue? e with
    | some c =>
      let (ps, rest) := scanString r
      (.char c :: ps, rest)
    | none => ([], .error .invalidEscape)
  | c :: r =>
    if c.val < 0x20 then ([], .error .controlCharacter)
    else
      let (ps, rest) := scanString r
      (.char c :: ps, rest)

/-- A leading half of a pair of units. -/
def isLead (n : Nat) : Bool := 0xd800 ≤ n && n ≤ 0xdbff

/-- A trailing half of a pair of units. -/
def isTrail (n : Nat) : Bool := 0xdc00 ≤ n && n ≤ 0xdfff

/-- Joins pairs of units into characters. `fault` is what stopped the scan, if it was not the closing quote. -/
def joinUnits (fault : Option Error) : List Piece → Except Error (List Char)
  | [] => match fault with
    | none => .ok []
    | some e => .error e
  | .char c :: r => (joinUnits fault r).map (c :: ·)
  | .unit n :: r =>
    if isTrail n then .error .loneSurrogate
    else if isLead n then
      match r with
      | .unit m :: r =>
        if isTrail m then
          (joinUnits fault r).map (Char.ofNat (0x10000 + (n - 0xd800) * 0x400 + (m - 0xdc00)) :: ·)
        else .error .loneSurrogate
      | .char _ :: _ => .error .unpairedSurrogate
      | [] => match fault with
        | some (.ended p) => .error (.ended p)
        | some .invalidHexEscape => .error .invalidHexEscape
        | _ => .error .unpairedSurrogate
    else (joinUnits fault r).map (Char.ofNat n :: ·)

/-- The string after an opening quote, and what follows it unless it does not end. -/
def stringLeaf (s : List Char) : Leaf × Option (List Char) :=
  match scanString s with
  | (ps, .ok rest) => (⟨.quote, (joinUnits none ps).map (.string <| String.ofList ·), none⟩, some rest)
  | (ps, .error e) => (⟨.quote, (joinUnits (some e) ps).map (.string <| String.ofList ·), some e⟩, none)

/-! ### Numbers -/

/-- Digits as a number of at most sixty-four bits, and how many digits no longer fit. -/
def significand (limit : Nat) : List Char → Nat → Nat × Nat
  | [], n => (n, 0)
  | c :: r, n =>
    let n' := n * 10 + (c.toNat - 48)
    if n' < limit then significand limit r n' else (n, r.length + 1)

/-- The doubles `significand * 10 ^ exponent`: one rounding for the significand and one for each scaling. -/
def scaleFloat (negative : Bool) : Nat → Float → Int → Except Error Float
  | 0, f, _ => .ok (if negative then -f else f)
  | fuel + 1, f, e =>
    if e.natAbs ≤ 308 then
      let power := Float.ofScientific 1 false e.natAbs
      let f' := if 0 ≤ e then f * power else f / power
      if 0 ≤ e && !Decimal.isFinite f' then .error .numberOutOfRange else .ok (if negative then -f' else f')
    else if f == 0 then .ok (if negative then -f else f)
    else if 0 ≤ e then .error .numberOutOfRange
    else scaleFloat negative fuel (f / Float.ofScientific 1 false 308) (e + 308)

/-- The value of a number from its digits before and after the point and its exponent, if it has these parts. -/
def numberValue (negative : Bool) (whole : List Char) (fraction : Option (List Char))
    (exponent : Option (Bool × List Char)) : Except Error Scalar :=
  let limit := Nat.pow 2 64
  let (n, lost) := significand limit whole 0
  match fraction, exponent, lost with
  | none, none, 0 =>
    if !negative then .ok (.nat n)
    else if 1 ≤ n ∧ n ≤ Nat.pow 2 63 then .ok (.negative n)
    else .ok (.float (-(UInt64.ofNat n).toFloat))
  | _, _, _ =>
    let (n, kept) := match fraction with
      | none => (n, 0)
      | some ds =>
        let (n, lost) := significand limit ds n
        (n, ds.length - lost)
    let start : Int := lost - kept
    let float := fun (e : Int) => (scaleFloat negative (e.natAbs / 308 + 2) (UInt64.ofNat n).toFloat e).map Scalar.float
    match exponent with
    | none => float start
    | some (minus, ds) =>
      let e : Nat := ds.foldl (fun (a : Nat) c => a * 10 + (c.toNat - 48)) 0
      if Nat.pow 2 31 ≤ e then
        if n != 0 && !minus then .error .numberOutOfRange
        else .ok (.float (if negative then -0.0 else 0.0))
      else float (if minus then start - e else start + e)

/-- Whether a character is a decimal digit. -/
def isDigit (c : Char) : Bool := '0' ≤ c && c ≤ '9'

/-- A number that breaks off: at the end of the text, or at a character that cannot follow. -/
def brokenNumber (rest : List Char) : Leaf × Option (List Char) :=
  (⟨.plain, .error (if rest.isEmpty then .ended .value else .invalidNumber), some .invalidNumber⟩, none)

/-- The exponent and what follows: nothing, or a mark, a sign and digits. -/
def numberExponent (finish : Option (Bool × List Char) → Except Error Scalar) (s : List Char) :
    Leaf × Option (List Char) :=
  let digits := fun minus (r : List Char) =>
    if (r.takeWhile isDigit).isEmpty then brokenNumber r
    else (⟨.plain, finish (some (minus, r.takeWhile isDigit)), none⟩, some (r.dropWhile isDigit))
  match s with
  | c :: r =>
    if c = 'e' ∨ c = 'E' then
      match r with
      | '+' :: r => digits false r
      | '-' :: r => digits true r
      | r => digits false r
    else (⟨.plain, finish none, none⟩, some s)
  | [] => (⟨.plain, finish none, none⟩, some s)

/-- The number at the front of a text that begins with a digit or a minus sign. -/
def numberLeaf (s : List Char) : Leaf × Option (List Char) :=
  let negative := s.head? == some '-'
  let s := if negative then s.drop 1 else s
  let whole := s.takeWhile isDigit
  match whole with
  | [] => brokenNumber s
  | '0' :: _ :: _ => (⟨.plain, .error .invalidNumber, some .invalidNumber⟩, none)
  | _ =>
    match s.dropWhile isDigit with
    | '.' :: r =>
      if (r.takeWhile isDigit).isEmpty then brokenNumber r
      else numberExponent (numberValue negative whole (some (r.takeWhile isDigit))) (r.dropWhile isDigit)
    | r => numberExponent (numberValue negative whole none) r

/-! ### Values -/

/-- A word such as `true`, given the letters after its first. -/
def wordLeaf (start : Start) (letters : List Char) (value : Scalar) (s : List Char) : Leaf × Option (List Char) :=
  match letters, s with
  | [], s => (⟨start, .ok value, none⟩, some s)
  | _ :: _, [] => (⟨start, .error (.ended .value), some (.ended .value)⟩, none)
  | l :: ls, c :: r =>
    if l = c then wordLeaf start ls value r else (⟨start, .error .expectedWord, some .expectedWord⟩, none)

/-- The scalar at the front of a text that has no white space in front. -/
def scalarLeaf : List Char → Leaf × Option (List Char)
  | [] => (⟨.nothing, .error (.ended .value), some (.ended .value)⟩, none)
  | '"' :: r => stringLeaf r
  | 'n' :: r => wordLeaf .null "ull".toList .null r
  | 't' :: r => wordLeaf .plain "rue".toList (.bool true) r
  | 'f' :: r => wordLeaf .plain "alse".toList (.bool false) r
  | c :: r =>
    if c = '-' || isDigit c then numberLeaf (c :: r)
    else (⟨.plain, .error .expectedValue, some .expectedValue⟩, none)

/-- The shape of a scalar. -/
def Scalar.found : Scalar → Found
  | .null => .null
  | .bool b => .bool b
  | .nat n => .nat n
  | .negative n => .negative n
  | .float f => .float f
  | .string s => .string s

/-- The same fault for every reader but the one that wants a list to end. -/
def Close.same (e early : Error) : Close := ⟨some e, some e, some early, some .expectedValue⟩

/-- A container, marked when it lies too deep to be entered. -/
def guardDepth (room : Nat) (d : Doc) : Doc := if room = 0 then .deep d else d

mutual

/-- The value at the front of a text, and what follows it unless the text is faulty inside. `room` is how many more
brackets may be open. -/
def parseValue (room : Nat) : Nat → List Char → Doc × Option (List Char)
  | 0, _ => (.fault (.ended .value), none)
  | fuel + 1, s =>
    match dropSpace s with
    | '[' :: r =>
      match dropSpace r with
      | [] => (guardDepth room (.list [] (.same (.ended .list) (.ended .list))), none)
      | ']' :: r => (guardDepth room (.list [] .closed), some r)
      | r =>
        let (items, close, rest) := parseItems (room - 1) fuel r
        (guardDepth room (.list items close), rest)
    | '\x7b' :: r =>
      let (members, close, rest) := match dropSpace r with
        | [] => ([], ⟨some (.ended .object), some (.ended .object), none, some (.ended .object)⟩, none)
        | '\x7d' :: r => ([], .closed, some r)
        | '"' :: r => parseMembers (room - 1) fuel r
        | _ => ([], ⟨some .keyNotString, some .keyNotString, none, some .keyNotString⟩, none)
      (guardDepth room (.object members close), rest)
    | s =>
      let (l, rest) := scalarLeaf s
      (.leaf l, rest)

/-- The items from here to the end of the list. -/
def parseItems (room : Nat) : Nat → List Char → List Doc × Close × Option (List Char)
  | 0, _ => ([], .same (.ended .list) (.ended .list), none)
  | fuel + 1, s =>
    match parseValue room fuel s with
    | (d, none) => ([d], .closed, none)
    | (d, some r) =>
      match dropSpace r with
      | [] => ([d], .same (.ended .list) (.ended .list), none)
      | ']' :: r => ([d], .closed, some r)
      | ',' :: r =>
        match dropSpace r with
        | [] => ([d], .same (.ended .value) .trailingCharacters, none)
        | ']' :: _ => ([d], ⟨some .trailingComma, some .expectedValue, some .trailingComma, none⟩, none)
        | r =>
          let (ds, close, rest) := parseItems room fuel r
          (d :: ds, close, rest)
      | _ => ([d], .same .expectedCommaOrBracket .trailingCharacters, none)

/-- The members from the key behind an opening quote to the end of the object. -/
def parseMembers (room : Nat) : Nat → List Char → List (Leaf × Doc) × Close × Option (List Char)
  | 0, _ => ([], .same (.ended .object) (.ended .object), none)
  | fuel + 1, s =>
    match stringLeaf s with
    | (k, none) => ([(k, .fault (.ended .string))], .closed, none)
    | (k, some r) =>
      match dropSpace r with
      | [] => ([(k, .fault (.ended .object))], .closed, none)
      | ':' :: r =>
        match parseValue room fuel r with
        | (d, none) => ([(k, d)], .closed, none)
        | (d, some r) =>
          match dropSpace r with
          | [] => ([(k, d)], ⟨some (.ended .object), some (.ended .object), none, some (.ended .object)⟩, none)
          | '\x7d' :: r => ([(k, d)], .closed, some r)
          | ',' :: r =>
            match dropSpace r with
            | [] => ([(k, d)], ⟨some (.ended .value), some (.ended .object), none, some .expectedValue⟩, none)
            | '"' :: r =>
              let (ms, close, rest) := parseMembers room fuel r
              ((k, d) :: ms, close, rest)
            | '\x7d' :: _ => ([(k, d)], ⟨some .trailingComma, some .keyNotString, none, some .expectedValue⟩, none)
            | _ => ([(k, d)], .same .keyNotString .keyNotString, none)
          | _ => ([(k, d)], .same .expectedCommaOrBrace .expectedCommaOrBrace, none)
      | _ => ([(k, .fault .expectedColon)], .closed, none)

end

/-- How many brackets may be open at once. -/
def maxDepth : Nat := 127

/-- A whole text: its value, and whether anything but white space follows. -/
structure Document where
  root : Doc
  trailing : Bool

/-- Cuts a text into values. -/
def Document.parse (s : String) : Document :=
  let cs := s.toList
  match parseValue maxDepth (2 * cs.length + 2) cs with
  | (d, none) => ⟨d, false⟩
  | (d, some r) => ⟨d, !(dropSpace r).isEmpty⟩

end ContractMigration.Json
