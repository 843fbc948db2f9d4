/-! # 64-bit binary floating-point numbers

A `Binary64` is the 64-bit word of an IEEE 754 double. All arithmetic on it is exact integer
arithmetic followed by one rounding to nearest, ties to even: `Binary64.ofRatio` is that rounding,
and products, quotients and conversions of integers are defined through it. -/

namespace PatchCompiler

/-- A double, held as its 64-bit word. -/
structure Binary64 where
  /-- Sign bit, eleven exponent bits, fifty-two fraction bits. -/
  bits : UInt64
  deriving DecidableEq, Repr

namespace Binary64

/-- Number of words between the smallest subnormal and the smallest normal number. -/
def hidden : Nat := 1 <<< 52

/-- Magnitude of infinity, as a word without its sign. -/
def infinityBits : Nat := 2047 * hidden

/-- Whether the sign bit is set. -/
def isNegative (x : Binary64) : Bool := decide (1 <<< 63 ≤ x.bits.toNat)

/-- The word without its sign bit. -/
def magnitudeBits (x : Binary64) : Nat := x.bits.toNat % (1 <<< 63)

/-- Whether the word is no number. -/
def isNaN (x : Binary64) : Bool := decide (infinityBits < x.magnitudeBits)

/-- Whether the word is an infinity of either sign. -/
def isInfinite (x : Binary64) : Bool := decide (x.magnitudeBits = infinityBits)

/-- Whether the word is a number other than the infinities. -/
def isFinite (x : Binary64) : Bool := decide (x.magnitudeBits < infinityBits)

/-- Whether the word is a zero of either sign. -/
def isZero (x : Binary64) : Bool := decide (x.magnitudeBits = 0)

/-- The exponent field. -/
def exponentField (x : Binary64) : Nat := x.magnitudeBits / hidden

/-- Integer significand `m` of a finite number of magnitude `m * 2 ^ q`. -/
def significand (x : Binary64) : Nat :=
  if x.exponentField = 0 then x.magnitudeBits else hidden + x.magnitudeBits % hidden

/-- Exponent `q` of a finite number of magnitude `m * 2 ^ q`. -/
def exponent (x : Binary64) : Int :=
  if x.exponentField = 0 then -1074 else (x.exponentField : Int) - 1075

/-- The number with a given sign and a word without its sign. -/
def ofMagnitude (negative : Bool) (magnitude : Nat) : Binary64 :=
  ⟨UInt64.ofNat (magnitude + if negative then 1 <<< 63 else 0)⟩

/-- The number with the opposite sign bit. -/
def neg (x : Binary64) : Binary64 := ofMagnitude (!x.isNegative) x.magnitudeBits

/-- Divide and round to the nearest integer, a half going to the even neighbour. -/
def divideToEven (numerator denominator : Nat) : Nat :=
  let quotient := numerator / denominator
  let twice := 2 * (numerator % denominator)
  if twice < denominator then quotient
  else if denominator < twice then quotient + 1
  else quotient + quotient % 2

/-- The ratio `numerator / (denominator * 2 ^ shift)` as a pair of naturals. -/
def scaleDown (numerator denominator : Nat) (shift : Int) : Nat × Nat :=
  (numerator <<< (-shift).toNat, denominator <<< shift.toNat)

/-- Exponent of the last place of the double nearest to a positive ratio: the ratio has
fifty-three binary digits at or above it, or it is the least exponent there is. -/
def lastPlace (numerator denominator : Nat) : Int :=
  let guess : Int := (numerator.log2 : Int) - (denominator.log2 : Int) - 52
  let (top, bottom) := scaleDown numerator denominator guess
  max (-1074) (if top < hidden * bottom then guess - 1 else guess)

/-- The magnitude nearest to `numerator / denominator`, ties to even; a ratio too large for any
finite number is infinity. A significand that rounds up to the next power of two carries into the
exponent field by itself. -/
def ofRatio (numerator denominator : Nat) : Binary64 :=
  if numerator = 0 then ofMagnitude false 0
  else
    let place := lastPlace numerator denominator
    let (top, bottom) := scaleDown numerator denominator place
    let magnitude := (place + 1074).toNat * hidden + divideToEven top bottom
    ofMagnitude false (min magnitude infinityBits)

/-- The double nearest to a natural number. -/
def ofNat (n : Nat) : Binary64 := ofRatio n 1

/-- The double equal to a 32-bit integer. -/
def ofInt32 (n : Int32) : Binary64 :=
  let magnitude := ofNat n.toInt.natAbs
  if n.toInt < 0 then magnitude.neg else magnitude

/-- The double nearest to a power of ten. -/
def powerOfTen (exponent : Nat) : Binary64 := ofNat (Nat.pow 10 exponent)

/-- Exact ratio of the magnitude of a finite number. -/
def ratio (x : Binary64) : Nat × Nat :=
  (x.significand <<< x.exponent.toNat, 1 <<< (-x.exponent).toNat)

/-- Rounded product of the magnitudes of two finite numbers. -/
def mulMagnitude (x y : Binary64) : Binary64 :=
  let (xTop, xBottom) := x.ratio
  let (yTop, yBottom) := y.ratio
  ofRatio (xTop * yTop) (xBottom * yBottom)

/-- Rounded quotient of the magnitudes of two finite numbers, the second one not zero. -/
def divMagnitude (x y : Binary64) : Binary64 :=
  let (xTop, xBottom) := x.ratio
  let (yTop, yBottom) := y.ratio
  ofRatio (xTop * yBottom) (xBottom * yTop)

end Binary64

end PatchCompiler
