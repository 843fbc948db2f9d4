import Mathlib.Algebra.Order.Field.Power
import Mathlib.Data.Rat.Cast.Order
import Mathlib.Order.Monotone.Basic
import Mathlib.Tactic.FieldSimp
import Mathlib.Tactic.Linarith
import Mathlib.Tactic.Ring
import PatchCompiler.Number.Binary64

/-! # The nearest double

The words without sign, read as numbers, are points on the half-line of nonnegative rationals:
`Binary64.point` sends a word to its number and the distance to the next point is `Binary64.gap`. A
word covers the rationals between the half-way points to its neighbours, and these half-way points
too if it is even (`Binary64.Covers`). This is what rounding to nearest, ties to even, says of it
(`Binary64.roundsTo_iff`), and each rational is covered once (`Binary64.Covers.unique`). -/

namespace PatchCompiler

namespace Binary64

/-! ## Words -/

/-- The hidden bit is the one above the fifty-two bits of a fraction. -/
@[simp] theorem hidden_eq : hidden = 2 ^ 52 := rfl

/-- Infinity has the greatest exponent and no fraction. -/
theorem infinityBits_eq : infinityBits = 2047 * 2 ^ 52 := rfl

/-- A word is its sign and its magnitude. -/
theorem bits_eq (x : Binary64) :
    x.bits.toNat = x.magnitudeBits + if x.isNegative then 2 ^ 63 else 0 := by
  have hbits : x.bits.toNat < 2 ^ 64 := x.bits.toNat_lt
  have hmod : x.magnitudeBits = x.bits.toNat % 2 ^ 63 := rfl
  have hsign : x.isNegative = decide (2 ^ 63 ≤ x.bits.toNat) := rfl
  rw [hsign, hmod]
  split <;> rename_i h <;> simp only [decide_eq_true_eq] at h <;> omega

/-- Doubles are equal if their signs and their words are. -/
theorem ext_magnitude {x y : Binary64} (hsign : x.isNegative = y.isNegative)
    (hword : x.magnitudeBits = y.magnitudeBits) : x = y := by
  have hbits : x.bits.toNat = y.bits.toNat := by rw [bits_eq x, bits_eq y, hsign, hword]
  cases x
  cases y
  exact congrArg Binary64.mk (UInt64.toNat_inj.1 hbits)

section ofMagnitude

variable {negative : Bool} {word : Nat}

/-- The bits of a double are its word and its sign. -/
theorem toNat_ofMagnitude (hword : word < 2 ^ 63) :
    (ofMagnitude negative word).bits.toNat = word + if negative then 2 ^ 63 else 0 := by
  show (UInt64.ofNat _).toNat = _
  rw [UInt64.toNat_ofNat']
  refine Nat.mod_eq_of_lt ?_
  cases negative <;> simp only [Bool.false_eq_true, if_false, if_true] <;> omega

/-- The word of a double is the one it was made of. -/
@[simp] theorem magnitudeBits_ofMagnitude (hword : word < 2 ^ 63) :
    (ofMagnitude negative word).magnitudeBits = word := by
  show (ofMagnitude negative word).bits.toNat % 2 ^ 63 = word
  rw [toNat_ofMagnitude hword]
  cases negative <;> simp only [Bool.false_eq_true, if_false, if_true] <;> omega

/-- The sign of a double is the one it was made of. -/
@[simp] theorem isNegative_ofMagnitude (hword : word < 2 ^ 63) :
    (ofMagnitude negative word).isNegative = negative := by
  show decide (2 ^ 63 ≤ (ofMagnitude negative word).bits.toNat) = negative
  rw [toNat_ofMagnitude hword]
  cases negative <;> simp only [Bool.false_eq_true, if_false, if_true, decide_eq_false_iff_not,
    decide_eq_true_eq] <;> omega

end ofMagnitude

/-- A double is finite exactly if its word is below that of infinity. -/
theorem isFinite_iff {x : Binary64} : x.isFinite = true ↔ x.magnitudeBits < infinityBits := by
  simp [isFinite]

/-- A word that is a number is an infinity or finite. -/
theorem isInfinite_or_isFinite {x : Binary64} (hx : x.isNaN = false) :
    x.isInfinite = true ∨ x.isFinite = true := by
  have hword : ¬ infinityBits < x.magnitudeBits := of_decide_eq_false hx
  rw [isInfinite, isFinite, decide_eq_true_eq, decide_eq_true_eq]
  omega

/-- A word below that of infinity makes a finite double. -/
theorem ofMagnitude_finite (negative : Bool) {word : Nat} (hword : word < infinityBits) :
    (ofMagnitude negative word).isFinite = true ∧
      (ofMagnitude negative word).magnitudeBits = word ∧
      (ofMagnitude negative word).isNegative = negative := by
  have hbits : word < 2 ^ 63 := by rw [infinityBits_eq] at hword; omega
  rw [isFinite_iff, magnitudeBits_ofMagnitude hbits, isNegative_ofMagnitude hbits]
  exact ⟨hword, rfl, rfl⟩

/-! ## Points -/

/-- A power is as good as its exponent cut off at zero, up to the power that was cut off. -/
theorem pow_toNat {b : ℚ} (hb : b ≠ 0) (k : ℤ) : b ^ k.toNat = b ^ (-k).toNat * b ^ k := by
  rw [← zpow_natCast, ← zpow_natCast, ← zpow_add₀ hb]
  congr 1
  omega

/-- How often the distance between neighbours doubles below a word. -/
def binade (word : Nat) : Nat := word / hidden - 1

/-- The distance from a word's number to the next one. -/
def gap (word : Nat) : ℚ := 2 ^ ((binade word : ℤ) - 1074)

/-- The number of a word without its sign. The word of infinity stands for the number after the
greatest finite one. -/
def point (word : Nat) : ℚ := ((word - binade word * hidden : ℕ) : ℚ) * gap word

/-- The number half-way to the next word. -/
def midpoint (word : Nat) : ℚ := point word + gap word / 2

/-- Neighbours are apart. -/
theorem gap_pos (word : Nat) : 0 < gap word := zpow_pos (by norm_num) _

/-- The words of smaller exponents come before a word. -/
theorem binade_mul_le (word : Nat) : binade word * hidden ≤ word := by
  have h : binade word ≤ word / hidden := Nat.sub_le _ _
  calc binade word * hidden ≤ word / hidden * hidden := Nat.mul_le_mul_right _ h
    _ ≤ word := Nat.div_mul_le_self _ _

/-- The number of a word counts the gaps up to it. -/
theorem point_eq (word : Nat) :
    point word = ((word : ℚ) - binade word * 2 ^ 52) * gap word := by
  rw [point, Nat.cast_sub (binade_mul_le word), hidden_eq]
  push_cast
  ring

/-- The binade changes only where the last fraction of a normal number is passed. -/
theorem binade_succ (word : Nat) :
    binade (word + 1) = binade word ∨
      binade (word + 1) = binade word + 1 ∧ word + 1 = (binade word + 2) * 2 ^ 52 := by
  simp only [binade, hidden_eq]
  omega

/-- The gap doubles with the exponent. -/
theorem gap_of_binade {first second : Nat} (h : binade second = binade first + 1) :
    gap second = 2 * gap first := by
  rw [gap, gap, h]
  push_cast
  rw [show (binade first : ℤ) + 1 - 1074 = 1 + ((binade first : ℤ) - 1074) by ring,
    zpow_add₀ (by norm_num), zpow_one]

/-- The points are one gap apart. -/
theorem point_succ (word : Nat) : point (word + 1) = point word + gap word := by
  rw [point_eq, point_eq]
  obtain hsame | ⟨hnext, hword⟩ := binade_succ word
  · rw [hsame, gap, gap, hsame]
    push_cast
    ring
  · have hcast : (word : ℚ) = (binade word + 2) * 2 ^ 52 - 1 := by
      rw [eq_sub_iff_add_eq]
      exact_mod_cast hword
    rw [gap_of_binade hnext, hnext, hcast]
    push_cast
    rw [hcast]
    ring

/-- Greater words stand for greater numbers. -/
theorem point_strictMono : StrictMono point :=
  strictMono_nat_of_lt_succ fun word => by linarith [point_succ word, gap_pos word]

/-- The word zero stands for zero. -/
@[simp] theorem point_zero : point 0 = 0 := by simp [point]

/-- No word stands for a negative number. -/
theorem point_nonneg (word : Nat) : 0 ≤ point word := by
  simpa using point_strictMono.monotone (Nat.zero_le word)

/-- The half-way point is between two neighbours. -/
theorem midpoint_eq (word : Nat) : midpoint word = (point word + point (word + 1)) / 2 := by
  rw [midpoint, point_succ]
  ring

/-- A number is below its half-way point. -/
theorem point_lt_midpoint (word : Nat) : point word < midpoint word := by
  linarith [gap_pos word, show midpoint word = point word + gap word / 2 from rfl]

/-- The half-way point is below the next number. -/
theorem midpoint_lt_point (word : Nat) : midpoint word < point (word + 1) := by
  linarith [gap_pos word, point_succ word, show midpoint word = point word + gap word / 2 from rfl]

/-- Greater words have greater half-way points. -/
theorem midpoint_strictMono : StrictMono midpoint :=
  strictMono_nat_of_lt_succ fun word => (midpoint_lt_point word).trans (point_lt_midpoint _)

/-- No half-way point is zero. -/
theorem midpoint_pos (word : Nat) : 0 < midpoint word :=
  (point_nonneg word).trans_lt (point_lt_midpoint word)

/-! ## Covered numbers -/

/-- A word covers the numbers between the half-way points on both sides of its own, and the half-way
points if it is even. -/
structure Covers (word : Nat) (r : ℚ) : Prop where
  /-- The numbers are not below the lower half-way point. -/
  lower : ∀ previous, word = previous + 1 → midpoint previous ≤ r
  /-- They are not above the upper one. -/
  upper : r ≤ midpoint word
  /-- The lower half-way point belongs to an even word. -/
  even_lower : ∀ previous, word = previous + 1 → midpoint previous = r → word % 2 = 0
  /-- So does the upper one. -/
  even_upper : r = midpoint word → word % 2 = 0

variable {word other : Nat} {r : ℚ}

/-- A word covers its own number. -/
theorem covers_point (word : Nat) : Covers word (point word) := by
  refine ⟨?_, (point_lt_midpoint word).le, ?_, fun h => absurd h (point_lt_midpoint word).ne⟩
  · rintro previous rfl
    exact (midpoint_lt_point previous).le
  · rintro previous rfl h
    exact absurd h (midpoint_lt_point previous).ne

/-- The word zero covers zero. -/
theorem covers_zero : Covers 0 0 := point_zero ▸ covers_point 0

/-- Only the word zero covers zero. -/
theorem Covers.pos (h : Covers word r) (hword : word ≠ 0) : 0 < r :=
  (midpoint_pos (word - 1)).trans_le (h.lower _ (by omega))

/-- A number is covered by one word only. -/
theorem Covers.unique (h : Covers word r) (h' : Covers other r) : word = other := by
  -- of two words the smaller one would share its upper half-way point with the larger one
  have hnot : ∀ {first second : Nat}, Covers first r → Covers second r → ¬ first < second := by
    intro first second hfirst hsecond hlt
    obtain ⟨previous, rfl⟩ : ∃ previous, second = previous + 1 := ⟨second - 1, by omega⟩
    have hle : midpoint first ≤ midpoint previous :=
      midpoint_strictMono.monotone (Nat.le_of_lt_succ hlt)
    have hlower := hsecond.lower previous rfl
    have hupper := hfirst.upper
    have heq : midpoint first = midpoint previous := by linarith
    obtain rfl : first = previous := midpoint_strictMono.injective heq
    have heven := hfirst.even_upper (by linarith)
    have heven' := hsecond.even_lower first rfl (by linarith)
    omega
  have hle := Nat.le_of_not_lt (hnot h h')
  have hge := Nat.le_of_not_lt (hnot h' h)
  omega

/-- The point of a covering word is nearest, and if another one is as near, the word is even. -/
theorem Covers.nearest (h : Covers word r) (other : Nat) :
    |r - point word| ≤ |r - point other| ∧
      (|r - point word| = |r - point other| → other ≠ word → word % 2 = 0) := by
  have hupper := h.upper
  -- on either side no point is nearer than the neighbour
  obtain hlt | rfl | hgt := Nat.lt_trichotomy other word
  · obtain ⟨previous, rfl⟩ : ∃ previous, word = previous + 1 := ⟨word - 1, by omega⟩
    have hpoint : point other ≤ point previous :=
      point_strictMono.monotone (Nat.le_of_lt_succ hlt)
    have hlower := h.lower previous rfl
    have hmid := midpoint_eq previous
    have hprevious := point_lt_midpoint previous
    rw [abs_of_nonneg (show 0 ≤ r - point other by linarith)]
    have habs : |r - point (previous + 1)| ≤ r - point other :=
      abs_le.2 ⟨by linarith, by linarith [point_strictMono (Nat.lt_succ_self previous)]⟩
    refine ⟨habs, fun heq _ => h.even_lower previous rfl ?_⟩
    obtain hcase | hcase := abs_choice (r - point (previous + 1)) <;>
      linarith [point_strictMono (Nat.lt_succ_self previous)]
  · exact ⟨le_rfl, fun _ hne => absurd rfl hne⟩
  · have hpoint : point (word + 1) ≤ point other := point_strictMono.monotone hgt
    have hmid := midpoint_eq word
    have hnext := midpoint_lt_point word
    rw [abs_sub_comm r (point other), abs_of_nonneg (show 0 ≤ point other - r by linarith)]
    have habs : |r - point word| ≤ point other - r :=
      abs_le.2 ⟨by linarith [point_strictMono (Nat.lt_succ_self word)], by linarith⟩
    refine ⟨habs, fun heq _ => h.even_upper ?_⟩
    obtain hcase | hcase := abs_choice (r - point word) <;>
      linarith [point_strictMono (Nat.lt_succ_self word)]

/-- A finite word covers a number if no neighbour is nearer, if it is even where one is as near, and
if the number is below the half-way point after the greatest finite number. -/
theorem covers_of_nearest (hword : word < infinityBits)
    (hrange : r < midpoint (infinityBits - 1))
    (hnearest : ∀ other < infinityBits, |r - point word| ≤ |r - point other| ∧
      (|r - point word| = |r - point other| → other ≠ word → word % 2 = 0)) : Covers word r := by
  have hstep : ∀ previous, word = previous + 1 →
      midpoint previous ≤ r ∧ (midpoint previous = r → word % 2 = 0) := by
    rintro previous rfl
    obtain ⟨hle, htie⟩ := hnearest previous (by omega)
    have hmid := midpoint_eq previous
    have hlt := point_strictMono (Nat.lt_succ_self previous)
    constructor
    · by_contra hbelow
      have hr : r < midpoint previous := not_le.1 hbelow
      rw [abs_sub_comm r (point (previous + 1)),
        abs_of_nonneg (show 0 ≤ point (previous + 1) - r by
          linarith [midpoint_lt_point previous])] at hle
      obtain hcase | hcase := abs_choice (r - point previous) <;> linarith
    · intro heq
      refine htie ?_ (by omega)
      rw [abs_sub_comm r (point (previous + 1)),
        abs_of_nonneg (show 0 ≤ point (previous + 1) - r by linarith),
        abs_of_nonneg (show 0 ≤ r - point previous by linarith)]
      linarith
  have hnext : r ≤ midpoint word ∧ (r = midpoint word → word % 2 = 0) := by
    -- the greatest finite word has no finite neighbour above it; there the range decides
    by_cases hlast : word + 1 < infinityBits
    · obtain ⟨hle, htie⟩ := hnearest (word + 1) hlast
      have hmid := midpoint_eq word
      have hlt := point_strictMono (Nat.lt_succ_self word)
      constructor
      · by_contra habove
        have hr : midpoint word < r := not_le.1 habove
        rw [abs_of_nonneg (show 0 ≤ r - point word by linarith [point_lt_midpoint word])] at hle
        obtain hcase | hcase := abs_choice (r - point (word + 1)) <;> linarith
      · intro heq
        refine htie ?_ (by omega)
        rw [abs_sub_comm r (point (word + 1)),
          abs_of_nonneg (show 0 ≤ point (word + 1) - r by linarith),
          abs_of_nonneg (show 0 ≤ r - point word by linarith)]
        linarith
    · obtain rfl : word = infinityBits - 1 := by omega
      exact ⟨hrange.le, fun heq => absurd heq hrange.ne⟩
  exact ⟨fun previous h => (hstep previous h).1, hnext.1, fun previous h => (hstep previous h).2,
    hnext.2⟩

/-! ## Rounding -/

/-- The magnitude of a finite number. -/
def magnitude (x : Binary64) : ℚ := x.significand * 2 ^ x.exponent

/-- The number of a finite double. -/
def value (x : Binary64) : ℚ := if x.isNegative then -x.magnitude else x.magnitude

/-- A number rounds to a finite double, to nearest with ties to even: no finite double is nearer, one
that is as near leaves the choice to the even significand, and the number is not so large that it
rounds to infinity. -/
structure RoundsTo (r : ℚ) (x : Binary64) : Prop where
  /-- The double is finite. -/
  finite : x.isFinite = true
  /-- The number is below the half-way point between the greatest finite double and `2 ^ 1024`. -/
  range : |r| < 2 ^ 1024 - 2 ^ 970
  /-- No finite double is nearer. -/
  nearest : ∀ y : Binary64, y.isFinite = true → |r - x.value| ≤ |r - y.value|
  /-- If another one is as near, the significand is even. -/
  tie : ∀ y : Binary64, y.isFinite = true → |r - x.value| = |r - y.value| → y.value ≠ x.value →
    x.significand % 2 = 0

/-- The significand is what a word has above the words of smaller exponents. -/
theorem significand_eq (x : Binary64) :
    x.significand = x.magnitudeBits - binade x.magnitudeBits * hidden := by
  rw [significand, exponentField, binade]
  split <;> simp only [hidden_eq] at * <;> omega

/-- The exponent is that of the gap at a word. -/
theorem exponent_eq (x : Binary64) : x.exponent = (binade x.magnitudeBits : ℤ) - 1074 := by
  rw [exponent, exponentField, binade]
  split <;> simp only [hidden_eq] at * <;> omega

/-- The magnitude of a double is the number of its word. -/
theorem magnitude_eq (x : Binary64) : x.magnitude = point x.magnitudeBits := by
  rw [magnitude, significand_eq, exponent_eq, point, gap]

/-- A significand is even exactly if its word is. -/
theorem significand_even_iff (x : Binary64) : x.significand % 2 = 0 ↔ x.magnitudeBits % 2 = 0 := by
  have hle := binade_mul_le x.magnitudeBits
  rw [significand_eq]
  rw [hidden_eq] at hle ⊢
  omega

/-- A significand has fifty-three bits. -/
theorem significand_lt (x : Binary64) : x.significand < 2 ^ 53 := by
  rw [significand]
  split
  · rename_i h
    rw [exponentField, hidden_eq] at h
    omega
  · rw [hidden_eq]
    omega

/-- The significand of a double other than zero is positive. -/
theorem significand_pos {x : Binary64} (hx : x.magnitudeBits ≠ 0) : 0 < x.significand := by
  rw [significand]
  split
  · omega
  · rw [hidden_eq]
    omega

/-- The ratio of a double has a positive denominator. -/
theorem ratio_bottom_pos (x : Binary64) : 0 < x.ratio.2 := by
  simp [ratio, Nat.shiftLeft_eq]

/-- The ratio of a double other than zero is positive. -/
theorem ratio_pos {x : Binary64} (hx : x.magnitudeBits ≠ 0) : 0 < x.ratio.1 ∧ 0 < x.ratio.2 := by
  refine ⟨?_, ratio_bottom_pos x⟩
  simp only [ratio, Nat.shiftLeft_eq]
  exact Nat.mul_pos (significand_pos hx) (Nat.two_pow_pos _)

/-- The ratio of a double is its magnitude. -/
theorem magnitude_ratio (x : Binary64) : x.magnitude = x.ratio.1 / x.ratio.2 := by
  have hpow := pow_toNat (b := 2) (by norm_num) x.exponent
  have hne : (2 : ℚ) ^ (-x.exponent).toNat ≠ 0 := by positivity
  simp only [ratio, Nat.shiftLeft_eq, magnitude, Nat.cast_mul, Nat.cast_pow, Nat.cast_ofNat, one_mul]
  rw [eq_div_iff hne, hpow]
  ring

/-- The half-way point above the greatest finite double. -/
theorem midpoint_last : midpoint (infinityBits - 1) = 2 ^ 1024 - 2 ^ 970 := by
  have hbinade : binade (infinityBits - 1) = 2045 := by decide
  have hword : ((infinityBits - 1 : ℕ) : ℚ) = 2047 * 2 ^ 52 - 1 := by
    rw [infinityBits_eq]
    norm_num
  have htop : (2 : ℚ) ^ 1024 = 2 ^ 54 * 2 ^ 970 := by rw [← pow_add]
  have hgap : gap (infinityBits - 1) = 2 * 2 ^ 970 := by
    rw [gap, hbinade, show ((2045 : ℕ) : ℤ) - 1074 = ((1 + 970 : ℕ) : ℤ) by norm_num, zpow_natCast,
      pow_add, pow_one]
  rw [midpoint, point_eq, hgap, hbinade, hword, htop]
  generalize (2 : ℚ) ^ 970 = unit
  ring

/-- A number and a double of one sign are as far apart as their magnitudes. -/
theorem abs_sub_value {r : ℚ} {x : Binary64} (hneg : x.isNegative = true → r ≤ 0)
    (hpos : x.isNegative = false → 0 ≤ r) : |r - x.value| = abs (|r| - point x.magnitudeBits) := by
  rw [value, magnitude_eq]
  cases hx : x.isNegative with
  | false =>
    rw [if_neg (by simp), abs_of_nonneg (hpos hx)]
  | true =>
    rw [if_pos rfl, abs_of_nonpos (hneg hx), ← abs_neg]
    congr 1
    ring

/-- Any double is at least as far from a number as their magnitudes are. -/
theorem le_abs_sub_value (r : ℚ) (x : Binary64) :
    abs (|r| - point x.magnitudeBits) ≤ |r - x.value| := by
  have habs : |x.value| = point x.magnitudeBits := by
    rw [value, magnitude_eq]
    split
    · rw [abs_neg, abs_of_nonneg (point_nonneg _)]
    · rw [abs_of_nonneg (point_nonneg _)]
  rw [← habs]
  exact abs_abs_sub_abs_le_abs_sub r x.value

/-- Rounding to a double of the same sign is covering by its word. -/
theorem roundsTo_iff {r : ℚ} {x : Binary64} (hx : x.isFinite = true)
    (hneg : x.isNegative = true → r ≤ 0) (hpos : x.isNegative = false → 0 ≤ r) :
    RoundsTo r x ↔ Covers x.magnitudeBits |r| := by
  have hself := abs_sub_value hneg hpos
  constructor
  · intro h
    refine covers_of_nearest (isFinite_iff.1 hx) (midpoint_last ▸ h.range) fun other hother => ?_
    obtain ⟨hfinite, hword, hsign⟩ := ofMagnitude_finite x.isNegative hother
    have hy := abs_sub_value (r := r) (x := ofMagnitude x.isNegative other)
      (by rwa [hsign]) (by rwa [hsign])
    rw [hword] at hy
    rw [← hself, ← hy, ← significand_even_iff]
    refine ⟨h.nearest _ hfinite, fun heq hne => h.tie _ hfinite heq fun hvalue => hne ?_⟩
    rw [value, value, hsign, magnitude_eq, magnitude_eq, hword] at hvalue
    refine point_strictMono.injective ?_
    split at hvalue <;> linarith
  · intro h
    have hlast : x.magnitudeBits ≤ infinityBits - 1 := Nat.le_sub_one_of_lt (isFinite_iff.1 hx)
    refine ⟨hx, ?_, fun y _ => ?_, fun y _ heq hne => ?_⟩
    · rw [← midpoint_last]
      refine (h.upper.trans (midpoint_strictMono.monotone hlast)).lt_of_ne fun heq => ?_
      -- the greatest finite word is odd, so it does not cover its upper half-way point
      have hmid := le_antisymm h.upper (heq ▸ midpoint_strictMono.monotone hlast)
      have hword := midpoint_strictMono.injective (hmid.symm.trans heq)
      have heven := h.even_upper hmid
      rw [hword] at heven
      exact absurd heven (by decide)
    · rw [hself]
      exact ((h.nearest y.magnitudeBits).1).trans (le_abs_sub_value r y)
    · rw [significand_even_iff]
      rw [hself] at heq
      obtain ⟨hle, htie⟩ := h.nearest y.magnitudeBits
      have heq' := le_antisymm hle (heq ▸ le_abs_sub_value r y)
      by_cases hword : y.magnitudeBits = x.magnitudeBits
      · -- the doubles are opposite and as near, so the number is zero
        have hsign : y.isNegative ≠ x.isNegative := fun h => hne (by rw [ext_magnitude h hword])
        have hopposite : y.value = -x.value := by
          rw [value, value, magnitude_eq, magnitude_eq, hword]
          cases hxs : x.isNegative <;> cases hys : y.isNegative <;> simp_all
        rw [hopposite, ← hself, sub_neg_eq_add] at heq
        have hsquare : (r - x.value) ^ 2 = (r + x.value) ^ 2 := (sq_eq_sq_iff_abs_eq_abs _ _).2 heq
        obtain hr | hvalue := mul_eq_zero.1 (show r * x.value = 0 by linarith)
        · by_contra hodd
          have hpos := h.pos fun hzero => hodd (by rw [hzero])
          rw [hr, abs_zero] at hpos
          exact lt_irrefl _ hpos
        · exact absurd (by rw [hopposite, hvalue, neg_zero]) hne
      · exact htie heq' hword

end Binary64

end PatchCompiler
