import PatchCompiler.Json.Cursor
import PatchCompiler.Number.Numeral
import PatchCompiler.Number.Scaled

/-! # JSON numbers

A number without point and exponent that fits into 64 bits is an integer. Of any other number the
leading digits that fit into 64 bits are its significand; further digits of the integer part count
only as places, further digits of the fraction not at all. -/

namespace PatchCompiler

namespace Json

/-- A number that was read. -/
inductive Numeric where
  /-- An integer. -/
  | int (value : Int)
  /-- Another number. -/
  | float (value : Binary64)
  deriving DecidableEq, Repr

/-- What a number is. -/
def Numeric.found : Numeric → Found
  | .int value => .int value
  | .float value => .float value

/-- A number as a value. -/
def Numeric.value : Numeric → Value
  | .int value => .int value
  | .float value => .float value

/-- Greatest significand. -/
def maxSignificand : Nat := UInt64.size - 1

/-- Greatest exponent that is read digit by digit. -/
def maxExponent : Nat := Int32.maxValue.toNatClampNeg

/-- Extend a number by the digits that keep it within a bound, up to the first one that does not;
gives also the digits left over. -/
def extend (bound : Nat) (n : Nat) : List Char → Nat × List Char
  | [] => (n, [])
  | c :: rest =>
    let longer := 10 * n + Numeral.digitValue c
    if longer ≤ bound then extend bound longer rest else (n, c :: rest)

/-- Pass over decimal digits; gives them. -/
def digits : Reader (List Char) := do
  let cursor ← get
  let run := cursor.rest.takeWhile Char.isDigit
  set (⟨cursor.rest.dropWhile Char.isDigit, cursor.offset + run.length⟩ : Cursor)
  return run

/-- Whether the next character is a decimal digit. -/
def atDigit : Reader Bool := do
  match ← peek with
  | some c => return c.isDigit
  | none => return false

/-- The digits in front of the point: a zero, or digits that do not begin with one. -/
def integerDigits : Reader (List Char) := do
  match ← peek with
  | none => fail .endOfValue
  | some '0' =>
    eat
    if ← atDigit then failNext .invalidNumber else return ['0']
  | some c => if c.isDigit then digits else failNext .invalidNumber

/-- The digits behind the point, of which there is at least one. -/
def fractionDigits : Reader (List Char) := do
  eat
  if ← atDigit then digits
  else match ← peek with
    | some _ => failNext .invalidNumber
    | none => failNext .endOfValue

/-- The number with a sign, a significand and a power of ten. -/
def scaled (negative : Bool) (significand : Nat) (power : Int) : Reader Numeric := do
  match Binary64.ofScaled significand power with
  | some x => return .float (if negative then x.neg else x)
  | none => fail .outOfRange

/-- A number that ends in an exponent. An exponent too large to be read makes the number zero if it
is negative or the significand is zero. -/
def exponent (negative : Bool) (significand : Nat) (power : Int) : Reader Numeric := do
  eat
  let down := (← peek) = some '-'
  if down || (← peek) = some '+' then eat
  match ← peek with
  | none => fail .endOfValue
  | some c =>
    if c.isDigit then
      let start := (← get).offset
      let run ← digits
      let (n, left) := extend maxExponent 0 run
      if left.isEmpty then scaled negative significand (if down then power - n else power + n)
      else if significand ≠ 0 ∧ ¬down then
        failAt .outOfRange (start + (run.length - left.length) + 1)
      else scaled negative 0 0
    else failNext .invalidNumber

/-- Whether an exponent follows. -/
def atExponent : Reader Bool := do
  let c ← peek
  return c = some 'e' || c = some 'E'

/-- The part of a number behind the integer digits that were kept. -/
def fraction (negative : Bool) (significand : Nat) (power : Int) : Reader Numeric := do
  let run ← fractionDigits
  let (longer, left) := extend maxSignificand significand run
  let places := power - (run.length - left.length : Nat)
  if ← atExponent then exponent negative longer places else scaled negative longer places

/-- The number with a sign and a natural number that fits into 64 bits: a negative zero and numbers
below the 64-bit integers are no integers. -/
def whole (negative : Bool) (n : Nat) : Numeric :=
  if ¬negative then .int n
  else if n = 0 ∨ Int64.minValue.toInt.natAbs < n then .float (Binary64.ofNat n).neg
  else .int (-(n : Int))

/-- A number that comes next. -/
def number : Reader Numeric := do
  let negative := (← peek) = some '-'
  if negative then eat
  let run ← integerDigits
  let (significand, left) := extend maxSignificand 0 run
  let power : Int := left.length
  if (← peek) = some '.' then fraction negative significand power
  else if ← atExponent then exponent negative significand power
  else if left.isEmpty then return whole negative significand
  else scaled negative significand power

/-- Whether a character begins a number. -/
def beginsNumber (c : Char) : Bool := c = '-' || c.isDigit

/-! ## Numbers nobody wants -/

/-- Pass over the digits in front of the point. -/
def skipInteger : Reader Unit := do
  match ← peek with
  | some '0' =>
    eat
    if ← atDigit then failNext .invalidNumber
  | some c =>
    if c.isDigit then
      let _ ← digits
    else failNext .invalidNumber
  | none => failNext .invalidNumber

/-- Pass over a point and the digits behind it. -/
def skipFraction : Reader Unit := do
  eat
  if ← atDigit then
    let _ ← digits
  else failNext .invalidNumber

/-- Pass over an exponent. -/
def skipExponent : Reader Unit := do
  eat
  let sign ← peek
  if sign = some '-' || sign = some '+' then eat
  if ← atDigit then
    let _ ← digits
  else failNext .invalidNumber

/-- Pass over a number that comes next. -/
def skipNumber : Reader Unit := do
  if (← peek) = some '-' then eat
  skipInteger
  if (← peek) = some '.' then skipFraction
  if ← atExponent then skipExponent

end Json

end PatchCompiler
