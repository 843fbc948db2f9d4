import PatchCompiler.Json.Value
import PatchCompiler.Text.Quoted

/-! # What can be wrong with a JSON text

The causes for which a text is refused, and their wording. -/

namespace PatchCompiler

namespace Json

/-- What a text holds where something else was expected. -/
inductive Found where
  /-- The value `null`. -/
  | null
  /-- A truth value. -/
  | bool (value : Bool)
  /-- An integer. -/
  | int (value : Int)
  /-- Another number. -/
  | float (value : Binary64)
  /-- A string. -/
  | string (value : String)
  /-- A list. -/
  | list
  /-- An object. -/
  | object
  /-- The bare name of a variant that carries data. -/
  | unitVariant
  deriving DecidableEq, Repr

/-- What a value is. -/
def Value.found : Value → Found
  | .null => .null
  | .bool value => .bool value
  | .int value => .int value
  | .float value => .float value
  | .string value => .string value
  | .list _ => .list
  | .object _ => .object

/-- What was found, in words. -/
def Found.text : Found → String
  | .null => "null"
  | .bool value => "boolean `" ++ (if value then "true" else "false") ++ "`"
  | .int value => "integer `" ++ toString value ++ "`"
  | .float value => "floating point `" ++ floatText value ++ "`"
  | .string value => "string " ++ Text.quoted value
  | .list => "sequence"
  | .object => "map"
  | .unitVariant => "unit variant"

/-- Why a text is refused. -/
inductive Problem where
  /-- The text ends where a value should be. -/
  | endOfValue
  /-- The text ends inside a list. -/
  | endOfList
  /-- The text ends inside an object. -/
  | endOfObject
  /-- The text ends inside a string. -/
  | endOfString
  /-- No colon after a member's name. -/
  | expectedColon
  /-- A list goes on without a comma. -/
  | expectedListEnd
  /-- An object goes on without a comma. -/
  | expectedObjectEnd
  /-- A literal is misspelt. -/
  | expectedIdent
  /-- No value begins here. -/
  | expectedValue
  /-- An escape that does not exist. -/
  | invalidEscape
  /-- A number that is not well formed. -/
  | invalidNumber
  /-- A number too large for a double. -/
  | outOfRange
  /-- Half of a surrogate pair. -/
  | loneSurrogate
  /-- The second half of a surrogate pair is missing. -/
  | brokenSurrogate
  /-- A control character inside a string. -/
  | controlCharacter
  /-- A member whose name is no string. -/
  | keyNotString
  /-- A comma with nothing after it. -/
  | trailingComma
  /-- Text after the end. -/
  | trailingCharacters
  /-- Containers nested too deeply. -/
  | tooDeep
  /-- A value of another type. -/
  | invalidType (found : Found) (expected : String)
  /-- A value of the right type that is out of bounds. -/
  | invalidValue (found : Found) (expected : String)
  /-- A list with too few items. -/
  | invalidLength (length : Nat) (expected : String)
  /-- A name that is not among the known ones. -/
  | unknownVariant (name : String) (known : List String)
  /-- A required member is not there. -/
  | missingField (name : String)
  /-- A member occurs twice. -/
  | duplicateField (name : String)
  deriving DecidableEq, Repr

/-- Names between backticks: two are joined by "or", more are listed. -/
def choices : List String → String
  | [a, b] => "`" ++ a ++ "` or `" ++ b ++ "`"
  | [a] => "`" ++ a ++ "`"
  | names => "one of " ++ ", ".intercalate (names.map fun name => "`" ++ name ++ "`")

/-- The problem in words. -/
def Problem.text : Problem → String
  | .endOfValue => "EOF while parsing a value"
  | .endOfList => "EOF while parsing a list"
  | .endOfObject => "EOF while parsing an object"
  | .endOfString => "EOF while parsing a string"
  | .expectedColon => "expected `:`"
  | .expectedListEnd => "expected `,` or `]`"
  | .expectedObjectEnd => "expected `,` or `\x7d`"
  | .expectedIdent => "expected ident"
  | .expectedValue => "expected value"
  | .invalidEscape => "invalid escape"
  | .invalidNumber => "invalid number"
  | .outOfRange => "number out of range"
  | .loneSurrogate => "lone leading surrogate in hex escape"
  | .brokenSurrogate => "unexpected end of hex escape"
  | .controlCharacter => "control character (\\u0000-\\u001F) found while parsing a string"
  | .keyNotString => "key must be a string"
  | .trailingComma => "trailing comma"
  | .trailingCharacters => "trailing characters"
  | .tooDeep => "recursion limit exceeded"
  | .invalidType found expected => "invalid type: " ++ found.text ++ ", expected " ++ expected
  | .invalidValue found expected => "invalid value: " ++ found.text ++ ", expected " ++ expected
  | .invalidLength length expected =>
    "invalid length " ++ toString length ++ ", expected " ++ expected
  | .unknownVariant name known => "unknown variant `" ++ name ++ "`, expected " ++ choices known
  | .missingField name => "missing field `" ++ name ++ "`"
  | .duplicateField name => "duplicate field `" ++ name ++ "`"

/-- A problem and the byte offset it is reported at. A problem with the shape of a container's
contents has no offset of its own: the container supplies one. -/
structure Fault where
  /-- What is wrong. -/
  problem : Problem
  /-- Where it is reported. -/
  offset : Option Nat
  deriving DecidableEq, Repr

/-- Report a problem at an offset, unless it has one already. -/
def Fault.place (fault : Fault) (offset : Nat) : Fault :=
  ⟨fault.problem, some (fault.offset.getD offset)⟩

end Json

end PatchCompiler
