import PatchCompiler.Number.Binary64

/-! # Shortest decimal digits

The shortest decimal of a double is the decimal with the fewest digits among those that round to
it, and of these the nearest one. A double of magnitude `m * 2 ^ q` is the nearest one for every
real between its two half-way points, which count in when `m` is even. For one digit, then two, and
so on, the two neighbours of the value on the grid of decimals with so many digits are tried. -/

namespace PatchCompiler

/-- A positive decimal `digits * 10 ^ exponent`. -/
structure Decimal where
  /-- Integer made of the digits. -/
  digits : Nat
  /-- Power of ten by which it is scaled. -/
  exponent : Int
  deriving DecidableEq, Repr

/-- Which of two equally near decimals is taken. -/
inductive Tie where
  /-- The one whose last digit is even. -/
  | even
  /-- The larger one. -/
  | up
  deriving DecidableEq, Repr

namespace Binary64

/-- Bounds of the reals that round to a positive finite number, and the number itself, all as
multiples of `unit = 2 ^ (q - 2)`: `lower`, `value`, `upper`. Below a power of two the next double
is half as far away. -/
structure Interval where
  /-- Lower half-way point. -/
  lower : Nat
  /-- The number. -/
  value : Nat
  /-- Upper half-way point. -/
  upper : Nat
  /-- Exponent of two of the common unit. -/
  unit : Int
  /-- Whether the half-way points round to the number. -/
  closed : Bool

/-- The interval of reals that round to a positive finite number. -/
def interval (x : Binary64) : Interval :=
  let m := x.significand
  let narrow := x.magnitudeBits % hidden = 0 && 1 < x.exponentField
  { lower := 4 * m - (if narrow then 1 else 2)
    value := 4 * m
    upper := 4 * m + 2
    unit := x.exponent - 2
    closed := m % 2 = 0 }

/-- Scale an interval to multiples of `10 ^ place`: the common factor of its bounds, and the
number of those factors that make one `10 ^ place`. -/
def Interval.grid (i : Interval) (place : Int) : Nat × Nat :=
  (Nat.pow 10 (-place).toNat <<< i.unit.toNat, Nat.pow 10 place.toNat <<< (-i.unit).toNat)

/-- The neighbour of the number on the grid of multiples of `10 ^ place` from below. -/
def Interval.low (i : Interval) (place : Int) : Nat :=
  i.value * (i.grid place).1 / (i.grid place).2

/-- The neighbour from above, which is the number itself if it is on the grid. -/
def Interval.high (i : Interval) (place : Int) : Nat :=
  if i.value * (i.grid place).1 % (i.grid place).2 = 0 then i.low place else i.low place + 1

/-- Whether a multiple of `10 ^ place` is in the interval. -/
def Interval.inside (i : Interval) (place : Int) (n : Nat) : Bool :=
  let (factor, cell) := i.grid place
  if i.closed then i.lower * factor ≤ n * cell && n * cell ≤ i.upper * factor
  else i.lower * factor < n * cell && n * cell < i.upper * factor

/-- Of the two neighbours on a grid the nearer one, or the one the tie rule takes. -/
def Interval.nearer (i : Interval) (tie : Tie) (place : Int) : Nat :=
  let (factor, cell) := i.grid place
  let below := i.value * factor - i.low place * cell
  let above := i.high place * cell - i.value * factor
  if below < above then i.low place
  else if above < below then i.high place
  else match tie with
    | .even => if i.low place % 2 = 0 then i.low place else i.high place
    | .up => i.high place

/-- The decimals next to a number on the grid of multiples of `10 ^ place`, below and above, as
far as they round to it; with two of them the nearer one. -/
def Interval.pick (i : Interval) (tie : Tie) (place : Int) : Option Decimal :=
  match i.inside place (i.low place), i.inside place (i.high place) with
  | true, true => some ⟨i.nearer tie place, place⟩
  | true, false => some ⟨i.low place, place⟩
  | false, true => some ⟨i.high place, place⟩
  | false, false => none

/-- Number of decimal digits of a natural number. -/
def digitCount (n : Nat) : Nat := (Nat.toDigits 10 n).length

/-- Exponent `p` with `10 ^ (p - 1) ≤ x < 10 ^ p`, for a positive finite number `x`. Below one it
is read off the reciprocal, which is no power of ten. -/
def decimalExponent (x : Binary64) : Int :=
  let (top, bottom) := x.ratio
  if bottom ≤ top then digitCount (top / bottom) else 1 - (digitCount (bottom / top) : Int)

/-- The first decimal found on the grids of `10 ^ place`, `10 ^ (place - 1)` and so on, after
`count` grids that may fail. -/
def Interval.search (i : Interval) (tie : Tie) : (count : Nat) → (place : Int) → Decimal
  | 0, place => (i.pick tie place).getD ⟨0, place⟩
  | count + 1, place =>
    match i.pick tie place with
    | some found => found
    | none => i.search tie count (place - 1)

/-- Drop zeros at the end of the digits. -/
def trimZeros (d : Decimal) : (fuel : Nat) → Decimal
  | 0 => d
  | fuel + 1 =>
    if d.digits ≠ 0 ∧ d.digits % 10 = 0 then trimZeros ⟨d.digits / 10, d.exponent + 1⟩ fuel else d

/-- The shortest decimal that rounds to a positive finite number. Seventeen digits always do. -/
def shortest (x : Binary64) (tie : Tie) : Decimal :=
  let top := x.decimalExponent
  let found := x.interval.search tie 16 (top - 1)
  trimZeros found (digitCount found.digits)

end Binary64

end PatchCompiler
