import PatchCompiler.Number.Layout

/-! # JSON values and their text

A `Json.Value` keeps the members of an object in order. `Json.Value.render` writes it without any
blanks. -/

namespace PatchCompiler

namespace Json

/-- A JSON value; integers and other numbers are told apart. -/
inductive Value where
  /-- The value `null`. -/
  | null
  /-- A truth value. -/
  | bool (value : Bool)
  /-- A number without point and exponent. -/
  | int (value : Int)
  /-- Any other number. -/
  | float (value : Binary64)
  /-- A string. -/
  | string (value : String)
  /-- A list. -/
  | list (items : List Value)
  /-- An object, with its members in order. -/
  | object (members : List (String × Value))

/-- Text of a positive number: the shortest digits, a tie going to the even one. Between `1e-5` and
`1e16` all places are written, and an integer ends in `.0`; otherwise there is an exponent. -/
def decimalText (d : Decimal) : List Char :=
  if 0 ≤ d.exponent ∧ d.point ≤ 16 then d.positional ++ ['.', '0']
  else if -5 < d.point ∧ d.point ≤ 16 then d.positional
  else d.scientific

/-- Text of a finite number; a zero keeps its sign. -/
def floatText (x : Binary64) : String :=
  let magnitude := if x.isZero then ['0', '.', '0'] else decimalText (x.shortest .even)
  String.ofList (if x.isNegative then '-' :: magnitude else magnitude)

/-- A hexadecimal digit. -/
def hexDigit (n : Nat) : Char := Nat.digitChar n

/-- A character of a string: quotes, backslashes and controls are escaped. -/
def escape (c : Char) : List Char :=
  match c with
  | '"' => ['\\', '"']
  | '\\' => ['\\', '\\']
  | '\n' => ['\\', 'n']
  | '\r' => ['\\', 'r']
  | '\t' => ['\\', 't']
  | '\x08' => ['\\', 'b']
  | '\x0c' => ['\\', 'f']
  | c =>
    if c.toNat < 0x20 then
      ['\\', 'u', '0', '0', hexDigit (c.toNat / 16), hexDigit (c.toNat % 16)]
    else [c]

/-- Text of a string. -/
def stringText (s : String) : String := String.ofList ('"' :: (s.toList.flatMap escape ++ ['"']))

mutual

/-- Text of a value. A number that is not finite has no text of its own and is written `null`. -/
def Value.render : Value → String
  | .null => "null"
  | .bool true => "true"
  | .bool false => "false"
  | .int value => toString value
  | .float value => if value.isFinite then floatText value else "null"
  | .string value => stringText value
  | .list items => "[" ++ Value.renderItems items ++ "]"
  | .object members => "\x7b" ++ Value.renderMembers members ++ "\x7d"

/-- Texts of the items of a list, divided by commas. -/
def Value.renderItems : List Value → String
  | [] => ""
  | [item] => item.render
  | item :: next :: rest => item.render ++ "," ++ Value.renderItems (next :: rest)

/-- Texts of the members of an object, divided by commas. -/
def Value.renderMembers : List (String × Value) → String
  | [] => ""
  | [(name, value)] => stringText name ++ ":" ++ value.render
  | (name, value) :: next :: rest =>
    stringText name ++ ":" ++ value.render ++ "," ++ Value.renderMembers (next :: rest)

end

/-- An optional value, `null` if it is missing. -/
def Value.ofOption {α : Type} (encode : α → Value) : Option α → Value
  | none => .null
  | some a => encode a

/-- A natural number. -/
def Value.nat (n : Nat) : Value := .int n

end Json

end PatchCompiler
