import ContractMigration.Decimal.Shortest

/-! JSON values and their text. Numbers are naturals, negative integers or doubles; members keep their order. A text is
written either without any white space or over several lines with two spaces for each level. -/

namespace ContractMigration.Json

/-- A JSON value. `negative n` is the integer `-n`. -/
inductive Value
  | null
  | bool (b : Bool)
  | nat (n : Nat)
  | negative (n : Nat)
  | float (f : Float)
  | string (s : String)
  | list (items : List Value)
  | object (members : List (String × Value))
  deriving Inhabited

/-- Doubles are positional when their point stands at most four places before or sixteen after the first digit. -/
def floatLayout : Decimal.Layout := ⟨-4, 16⟩

/-- The text of a double; infinities and what is no number are written as null. -/
def floatText (f : Float) : List Char :=
  if Decimal.isFinite f then (floatLayout.text f).toList else "null".toList

/-- One character as it stands in a string. -/
def escapeChar (c : Char) : List Char :=
  if c = '"' then ['\\', '"']
  else if c = '\\' then ['\\', '\\']
  else if c = '\x08' then ['\\', 'b']
  else if c = '\x0c' then ['\\', 'f']
  else if c = '\n' then ['\\', 'n']
  else if c = '\r' then ['\\', 'r']
  else if c = '\t' then ['\\', 't']
  else if c.val < 0x20 then
    ['\\', 'u', '0', '0', Nat.digitChar (c.toNat / 16), Nat.digitChar (c.toNat % 16)]
  else [c]

/-- A string in its quotes. -/
def stringText (s : String) : List Char := '"' :: s.toList.flatMap escapeChar ++ ['"']

/-- The texts with a comma between each two of them. -/
def commaJoin : List (List Char) → List Char
  | [] => []
  | [s] => s
  | s :: t :: r => s ++ ',' :: commaJoin (t :: r)

mutual

/-- The text of a value without white space. -/
def Value.text : Value → List Char
  | .null => "null".toList
  | .bool true => "true".toList
  | .bool false => "false".toList
  | .nat n => Nat.toDigits 10 n
  | .negative n => '-' :: Nat.toDigits 10 n
  | .float f => floatText f
  | .string s => stringText s
  | .list items => '[' :: commaJoin (itemTexts items) ++ [']']
  | .object members => '\x7b' :: commaJoin (memberTexts members) ++ ['\x7d']

/-- The texts of the items. -/
def itemTexts : List Value → List (List Char)
  | [] => []
  | v :: r => v.text :: itemTexts r

/-- The texts of the members. -/
def memberTexts : List (String × Value) → List (List Char)
  | [] => []
  | (k, v) :: r => (stringText k ++ ':' :: v.text) :: memberTexts r

end

/-- The text of a value on one line. -/
def Value.render (v : Value) : String := String.ofList v.text

/-- A line break and the white space in front of a level. -/
def indent (level : Nat) : List Char := '\n' :: List.replicate (2 * level) ' '

/-- Places each text on a line of its own. -/
def lineJoin (level : Nat) (texts : List (List Char)) : List Char :=
  match texts with
  | [] => []
  | _ => commaJoin (texts.map (indent (level + 1) ++ ·)) ++ indent level

mutual

/-- The text of a value over several lines. -/
def Value.prettyText (level : Nat) : Value → List Char
  | .list items => '[' :: lineJoin level (prettyItems (level + 1) items) ++ [']']
  | .object members => '\x7b' :: lineJoin level (prettyMembers (level + 1) members) ++ ['\x7d']
  | v => v.text

/-- The texts of the items over several lines. -/
def prettyItems (level : Nat) : List Value → List (List Char)
  | [] => []
  | v :: r => v.prettyText level :: prettyItems level r

/-- The texts of the members over several lines. -/
def prettyMembers (level : Nat) : List (String × Value) → List (List Char)
  | [] => []
  | (k, v) :: r => (stringText k ++ ':' :: ' ' :: v.prettyText level) :: prettyMembers level r

end

/-- The text of a value with two spaces for each level. -/
def Value.renderPretty (v : Value) : String := String.ofList (v.prettyText 0)

/-- An object without the members that are absent. -/
def objectOf (members : List (String × Option Value)) : Value :=
  .object (members.filterMap fun (k, v) => v.map (k, ·))

/-- A list of strings. -/
def strings (ss : List String) : Value := .list (ss.map .string)

end ContractMigration.Json
