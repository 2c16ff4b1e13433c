import ContractMigration.Decimal.Shortest
import ContractMigration.Json.Value
import ContractMigration.Text.Quoted
import ContractMigration.Text.Segments

/-! Why a text is not the JSON value it is read as: a fault of the text itself, or a value of another shape than the
one wanted. -/

namespace ContractMigration.Json

/-- What a text ended inside of. -/
inductive Part
  | value
  | object
  | list
  | string

/-- The shape of a value that was met where another was wanted. -/
inductive Found
  | null
  | bool (b : Bool)
  | nat (n : Nat)
  | negative (n : Nat)
  | float (f : Float)
  | string (s : String)
  | sequence
  | map

/-- Names a shape; doubles are written with the given layout. -/
def Found.text (layout : Decimal.Layout) : Found → String
  | .null => "null"
  | .bool b => "boolean `" ++ (if b then "true" else "false") ++ "`"
  | .nat n => "integer `" ++ toString n ++ "`"
  | .negative n => "integer `-" ++ toString n ++ "`"
  | .float f => "floating point `" ++ layout.text f ++ "`"
  | .string s => "string " ++ Text.quoted s
  | .sequence => "sequence"
  | .map => "map"

/-- A reason not to read a text as a value. -/
inductive Error
  | ended (inside : Part)
  | expectedValue
  | expectedWord
  | trailingComma
  | trailingCharacters
  | expectedColon
  | expectedCommaOrBracket
  | expectedCommaOrBrace
  | keyNotString
  | invalidEscape
  | invalidHexEscape
  | unpairedSurrogate
  | loneSurrogate
  | controlCharacter
  | invalidNumber
  | numberOutOfRange
  | tooDeep
  | missingField (name : String)
  | duplicateField (name : String)
  | unknownVariant (name : String) (known : List String)
  | invalidType (found : Found) (wanted : String)
  | invalidValue (found : Found) (wanted : String)
  | invalidLength (length : Nat) (wanted : String)
  | noMatch (name : String)
  | other (text : String)

/-- Names of which one was expected. -/
def oneOf (names : List String) : String :=
  let ticked := names.map fun n => "`" ++ n ++ "`"
  match ticked with
  | [] => "there are no variants"
  | [a] => "expected " ++ a
  | [a, b] => "expected " ++ a ++ " or " ++ b
  | _ => "expected one of " ++ Text.join ", " ticked

/-- The words for an error; doubles are written with the given layout. -/
def Error.messageWith (layout : Decimal.Layout) : Error → String
  | .ended .value => "EOF while parsing a value"
  | .ended .object => "EOF while parsing an object"
  | .ended .list => "EOF while parsing a list"
  | .ended .string => "EOF while parsing a string"
  | .expectedValue => "expected value"
  | .expectedWord => "expected ident"
  | .trailingComma => "trailing comma"
  | .trailingCharacters => "trailing characters"
  | .expectedColon => "expected `:`"
  | .expectedCommaOrBracket => "expected `,` or `]`"
  | .expectedCommaOrBrace => "expected `,` or `\x7d`"
  | .keyNotString => "key must be a string"
  | .invalidEscape | .invalidHexEscape => "invalid escape"
  | .unpairedSurrogate => "unexpected end of hex escape"
  | .loneSurrogate => "lone leading surrogate in hex escape"
  | .controlCharacter => "control character (\\u0000-\\u001F) found while parsing a string"
  | .invalidNumber => "invalid number"
  | .numberOutOfRange => "number out of range"
  | .tooDeep => "recursion limit exceeded"
  | .missingField n => "missing field `" ++ n ++ "`"
  | .duplicateField n => "duplicate field `" ++ n ++ "`"
  | .unknownVariant n known => "unknown variant `" ++ n ++ "`, " ++ oneOf known
  | .invalidType f w => "invalid type: " ++ f.text layout ++ ", expected " ++ w
  | .invalidValue f w => "invalid value: " ++ f.text layout ++ ", expected " ++ w
  | .invalidLength n w => "invalid length " ++ toString n ++ ", expected " ++ w
  | .noMatch n => "data did not match any variant of untagged enum " ++ n
  | .other t => t

/-- The words for an error in a JSON text. -/
def Error.message (e : Error) : String := e.messageWith floatLayout

end ContractMigration.Json
