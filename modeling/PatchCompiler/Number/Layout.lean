import PatchCompiler.Number.Shortest

/-! # Writing decimals

A decimal is written with all its places (`Decimal.positional`) or with a power of ten
(`Decimal.scientific`). Which of the two a text uses is a decision of its format. -/

namespace PatchCompiler

namespace Decimal

/-- The digits, most significant first. -/
def characters (d : Decimal) : List Char := Nat.toDigits 10 d.digits

/-- Position of the decimal point: the value is `0.d₁d₂… * 10 ^ point`. -/
def point (d : Decimal) : Int := (d.characters.length : Int) + d.exponent

/-- All places, without an exponent: zeros are added on either side as the point requires, and an
integer has no point. -/
def positional (d : Decimal) : List Char :=
  if 0 ≤ d.exponent then d.characters ++ List.replicate d.exponent.toNat '0'
  else if 0 < d.point then
    d.characters.take d.point.toNat ++ '.' :: d.characters.drop d.point.toNat
  else '0' :: '.' :: (List.replicate (-d.point).toNat '0' ++ d.characters)

/-- One digit, the others behind a point if there are any, and a power of ten with its sign. -/
def scientific (d : Decimal) : List Char :=
  let power := d.point - 1
  let sign := if power < 0 then '-' else '+'
  let exponent := 'e' :: sign :: Nat.toDigits 10 power.natAbs
  match d.characters with
  | [] => exponent
  | [digit] => digit :: exponent
  | digit :: rest => digit :: '.' :: (rest ++ exponent)

end Decimal

end PatchCompiler
