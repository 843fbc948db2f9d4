/-! # Reading 32-bit integers

A signed numeral is at most one sign followed by at least one decimal digit, and nothing else. -/

namespace PatchCompiler

namespace Numeral

/-- Value of a decimal digit. -/
def digitValue (c : Char) : Nat := c.toNat - '0'.toNat

/-- Value of a run of decimal digits. -/
def value (digits : List Char) : Nat := digits.foldl (fun n c => 10 * n + digitValue c) 0

/-- The number written by a run of digits; nothing for an empty run or any other character. -/
def unsigned? (digits : List Char) : Option Nat :=
  if digits ≠ [] ∧ digits.all Char.isDigit then some (value digits) else none

/-- The integer written by an optional sign and a run of digits. -/
def signed? : List Char → Option Int
  | '+' :: digits => (unsigned? digits).map Int.ofNat
  | '-' :: digits => (unsigned? digits).map fun n => -(n : Int)
  | digits => (unsigned? digits).map Int.ofNat

/-- The 32-bit integer a text writes; nothing if the text is no numeral or its value is out of
range. -/
def int32? (text : String) : Option Int32 := do
  let n ← signed? text.toList
  if Int32.minValue.toInt ≤ n ∧ n ≤ Int32.maxValue.toInt then some (Int32.ofInt n) else none

end Numeral

end PatchCompiler
