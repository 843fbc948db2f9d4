import PatchCompiler.Number.Binary64

/-! # Scaling by powers of ten

A decimal numeral is read as an integer significand that is scaled by a power of ten. The
significand, the power and the result are each rounded to a double, so the result can be off by more
than half a unit in the last place. -/

namespace PatchCompiler

namespace Binary64

/-- Greatest exponent of a power of ten that is a finite double. -/
def maxPower : Nat := 308

/-- Scale a finite number by a power of ten; nothing if the result is too large. A power too small
for a double is applied in portions of `10 ^ maxPower`. -/
def scale (x : Binary64) (power : Int) : Option Binary64 :=
  if power.natAbs ≤ maxPower then
    if 0 ≤ power then
      let scaled := x.mulMagnitude (powerOfTen power.natAbs)
      if scaled.isInfinite then none else some scaled
    else some (x.divMagnitude (powerOfTen power.natAbs))
  else if x.isZero then some x
  else if 0 < power then none
  else scale (x.divMagnitude (powerOfTen maxPower)) (power + maxPower)
termination_by power.natAbs
decreasing_by all_goals simp only [maxPower] at *; omega

/-- The number read from an integer significand and a power of ten; nothing if it is too large. -/
def ofScaled (significand : Nat) (power : Int) : Option Binary64 := (ofNat significand).scale power

end Binary64

end PatchCompiler
