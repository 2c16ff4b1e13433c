import ContractMigration.Json.Reader
import ContractMigration.Text.Blank

/-! Moments in time and their text. A moment is a count of seconds from the start of 1970 in universal time and a
fraction in nanoseconds. Texts are dates and times with an offset; they are read leniently about white space and
written in universal time with as many groups of three fraction digits as needed. -/

namespace ContractMigration

/-- A moment; a fraction of a thousand million or more lies in a leap second. -/
structure Timestamp where
  seconds : Int
  nanos : Nat
  deriving DecidableEq

namespace Timestamp

/-- Why a text is no moment. -/
inductive Error
  | tooShort
  | tooLong
  | invalid
  | outOfRange
  | impossible
  deriving DecidableEq

def Error.message : Error → String
  | .tooShort => "premature end of input"
  | .tooLong => "trailing input"
  | .invalid => "input contains invalid characters"
  | .outOfRange => "input is out of range"
  | .impossible => "no possible date and time matching input"

/-! ### The calendar -/

/-- Days from the first of March of year 0 to a day of the calendar. -/
def daysFromMarch (year : Int) (month day : Nat) : Int :=
  let y := if month ≤ 2 then year - 1 else year
  let era := y.fdiv 400
  let yoe := y - era * 400
  let doy : Int := (153 * ((month + 9) % 12) + 2) / 5 + day - 1
  era * 146097 + (yoe * 365 + yoe.fdiv 4 - yoe.fdiv 100 + doy)

/-- Days from the first of January 1970 to a day of the calendar. -/
def daysFromDate (year : Int) (month day : Nat) : Int := daysFromMarch year month day - 719468

/-- The year, month and day that lies that many days after the first of January 1970. -/
def dateFromDays (days : Int) : Int × Nat × Nat :=
  let z := days + 719468
  let era := z.fdiv 146097
  let doe := z - era * 146097
  let yoe := (doe - doe.fdiv 1460 + doe.fdiv 36524 - doe.fdiv 146096).fdiv 365
  let doy := doe - (365 * yoe + yoe.fdiv 4 - yoe.fdiv 100)
  let mp := ((5 * doy + 2).fdiv 153).toNat
  let day := (doy - (153 * (mp : Int) + 2).fdiv 5 + 1).toNat
  let month := if mp < 10 then mp + 3 else mp - 9
  (yoe + era * 400 + (if month ≤ 2 then 1 else 0), month, day)

/-- Whether a year has a twenty-ninth of February. -/
def isLeap (year : Int) : Bool := year % 4 == 0 && (year % 100 != 0 || year % 400 == 0)

/-- How many days a month has. -/
def daysIn (year : Int) (month : Nat) : Nat :=
  if month = 2 then if isLeap year then 29 else 28
  else if month = 4 ∨ month = 6 ∨ month = 9 ∨ month = 11 then 30 else 31

/-- The first year of the calendar. -/
def firstYear : Int := -262143

/-- The last year of the calendar. -/
def lastYear : Int := 262142

/-- Whether that many seconds after the start of 1970 lie between the first year and the last one. -/
def isInCalendar (seconds : Int) : Bool :=
  daysFromDate firstYear 1 1 * 86400 ≤ seconds && seconds < daysFromDate (lastYear + 1) 1 1 * 86400

/-! ### Reading -/

/-- Digits, at most `most` and at least one, as a number. -/
def number (most : Nat) (s : List Char) : Except Error (Nat × List Char) :=
  let ds := (s.take most).takeWhile Char.isDigit
  match s with
  | [] => .error .tooShort
  | _ =>
    if ds.isEmpty then .error .invalid
    else
      let n := ds.foldl (fun a c => a * 10 + (c.toNat - 48)) 0
      if n < Nat.pow 2 63 then .ok (n, s.drop ds.length) else .error .outOfRange

/-- A field behind white space. -/
def fieldIn (low high : Nat) (s : List Char) : Except Error (Nat × List Char) := do
  let (n, r) ← number 2 (Text.dropBlank s)
  if low ≤ n ∧ n ≤ high then .ok (n, r) else .error .outOfRange

/-- A year behind white space: four digits, or a sign and any number of them. -/
def yearField (s : List Char) : Except Error (Int × List Char) := do
  let limit : Int := 0x80000000
  let check := fun (n : Int) (r : List Char) =>
    if -limit ≤ n ∧ n < limit then Except.ok (n, r) else Except.error Error.outOfRange
  match Text.dropBlank s with
  | '-' :: r => do
    let (n, r) ← number r.length r
    check (-n) r
  | '+' :: r => do
    let (n, r) ← number r.length r
    check n r
  | s => do
    let (n, r) ← number 4 s
    check n r

/-- A given character behind white space. -/
def mark (c : Char) (s : List Char) : Except Error (List Char) :=
  match Text.dropBlank s with
  | [] => .error .tooShort
  | d :: r => if d = c then .ok r else .error .invalid

/-- A point and digits as nanoseconds, if there is a point; digits behind the ninth are passed over. -/
def fraction (s : List Char) : Except Error (Nat × List Char) :=
  match s with
  | '.' :: r => do
    let (n, rest) ← number 9 r
    let used := r.length - rest.length
    .ok (n * Nat.pow 10 (9 - used), rest.dropWhile Char.isDigit)
  | s => .ok (0, s)

/-- An offset from universal time in seconds. Two bytes are enough for two digits to be expected. -/
def offset (s : List Char) : Except Error (Int × List Char) :=
  let digits := fun (s : List Char) => match s with
    | a :: b :: r =>
      if a.isDigit && b.isDigit then Except.ok ((a.toNat - 48) * 10 + (b.toNat - 48), r) else Except.error Error.invalid
    | [a] => Except.error (if a.utf8Size = 1 then Error.tooShort else Error.invalid)
    | [] => Except.error Error.tooShort
  let signed := fun (sign : Int) (s : List Char) => do
    let (hours, r) ← digits s
    let (minutes, r) ← digits (r.dropWhile fun c => c == ':' || Text.isBlank c)
    if 60 ≤ minutes then .error .outOfRange
    else .ok (sign * (hours * 3600 + minutes * 60 : Nat), r)
  match s with
  | [] => .error .tooShort
  | 'Z' :: r | 'z' :: r => .ok (0, r)
  | '+' :: r => signed 1 r
  | '-' :: r | '−' :: r => signed (-1) r
  | a :: b :: c :: r =>
    if [a.toUpper, b.toUpper, c.toUpper] = ['U', 'T', 'C'] then .ok (0, r) else .error .invalid
  | _ => .error .invalid

/-- Reads a date and a time with its offset. -/
def parseChars (s : List Char) : Except Error Timestamp := do
  let (year, s) ← yearField s
  let s ← mark '-' s
  let (month, s) ← fieldIn 1 12 s
  let s ← mark '-' s
  let (day, s) ← fieldIn 1 31 s
  let s ← match s with
    | [] => .error .tooShort
    | c :: r => if c = 'T' ∨ c = 't' ∨ c = ' ' then .ok r else .error .invalid
  let (hour, s) ← fieldIn 0 23 s
  let s ← mark ':' s
  let (minute, s) ← fieldIn 0 59 s
  let s ← mark ':' s
  let (second, s) ← fieldIn 0 60 s
  let (nanos, s) ← fraction s
  let (shift, s) ← offset (Text.dropBlank s)
  if !(Text.dropBlank s).isEmpty then .error .tooLong
  if daysIn year month < day ∨ 86400 ≤ shift.natAbs ∨ year < firstYear ∨ lastYear < year then .error .outOfRange
  let leap := second == 60
  let clock : Int := hour * 3600 + minute * 60 + (if leap then 59 else second)
  let seconds := daysFromDate year month day * 86400 + clock - shift
  if isInCalendar seconds then .ok ⟨seconds, if leap then nanos + 1000000000 else nanos⟩ else .error .impossible

/-- Reads a date and a time with its offset. -/
def parse (s : String) : Except Error Timestamp := parseChars s.toList

/-! ### Writing -/

/-- A number with zeros in front up to a width. -/
def padded (width n : Nat) : List Char :=
  let ds := Nat.toDigits 10 n
  List.replicate (width - ds.length) '0' ++ ds

/-- The year with four digits, and with a sign where four do not do. -/
def yearText (year : Int) : List Char :=
  if 0 ≤ year ∧ year ≤ 9999 then padded 4 year.toNat
  else (if year < 0 then '-' else '+') :: padded 4 year.natAbs

/-- The fraction in none, three, six or nine digits. -/
def fractionText (nanos : Nat) : List Char :=
  if nanos = 0 then []
  else if nanos % 1000000 = 0 then '.' :: padded 3 (nanos / 1000000)
  else if nanos % 1000 = 0 then '.' :: padded 6 (nanos / 1000)
  else '.' :: padded 9 nanos

/-- The text of a moment in universal time. -/
def text (t : Timestamp) : String :=
  let days := t.seconds.fdiv 86400
  let clock := (t.seconds - days * 86400).toNat
  let (year, month, day) := dateFromDays days
  let leap := 1000000000 ≤ t.nanos
  let second := clock % 60 + if leap then 1 else 0
  let nanos := if leap then t.nanos - 1000000000 else t.nanos
  String.ofList (yearText year ++ '-' :: padded 2 month ++ '-' :: padded 2 day ++ 'T' :: padded 2 (clock / 3600) ++
    ':' :: padded 2 (clock / 60 % 60) ++ ':' :: padded 2 second ++ fractionText nanos ++ ['Z'])

/-- The milliseconds from one moment to a later one. -/
def millisBetween (a b : Timestamp) : Nat :=
  ((b.seconds * 1000 + (b.nanos / 1000000 : Nat)) - (a.seconds * 1000 + (a.nanos / 1000000 : Nat))).toNat

def toJson (t : Timestamp) : Json.Value := .string t.text

def reader : Json.Reader Timestamp := fun d => do
  let s ← Json.stringAs "an RFC 3339 formatted date and time string" d
  match parse s with
  | .ok t => .ok t
  | .error e => .error (.other e.message)

end Timestamp

end ContractMigration
