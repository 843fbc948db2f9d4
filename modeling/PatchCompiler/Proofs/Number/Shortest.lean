import Mathlib.Data.Rat.Floor
import PatchCompiler.Number.Shortest
import PatchCompiler.Proofs.Number.Nearest

/-! # The shortest decimal is covered, and no shorter one is

The search for a shortest decimal goes through grids of decimals with one digit, two digits and so on.
On each grid it tries the two neighbours of the number, which decide for the whole grid
(`Binary64.Interval.not_holds_of_pick`). The grid of seventeen digits is finer than the interval of
covered numbers is wide (`Binary64.grid_lt_interval`), so the search succeeds. What it finds is
covered by the word, and a decimal with fewer digits is not (`Binary64.shortest_spec`). -/

namespace PatchCompiler

/-- The number of a decimal. -/
def Decimal.value (d : Decimal) : ℚ := d.digits * 10 ^ d.exponent

namespace Binary64

/-! ## Counting digits -/

/-- A number is less than the power of ten with as many zeros as it has digits. -/
theorem lt_pow_digitCount (n : Nat) : n < 10 ^ digitCount n :=
  (Nat.length_toDigits_le_iff (by decide) Nat.length_toDigits_pos).1 le_rfl

/-- A number has a digit. -/
theorem digitCount_pos (n : Nat) : 0 < digitCount n := Nat.length_toDigits_pos

/-- A number below a power of ten has at most as many digits as the power has zeros. -/
theorem digitCount_le {n count : Nat} (hcount : 0 < count) (h : n < 10 ^ count) :
    digitCount n ≤ count := (Nat.length_toDigits_le_iff (by decide) hcount).2 h

/-- A number is at least the power of ten with one zero less than it has digits. -/
theorem pow_digitCount_le {n : Nat} (hn : n ≠ 0) : 10 ^ (digitCount n - 1) ≤ n := by
  by_contra hlt
  by_cases hone : digitCount n = 1
  · rw [hone] at hlt
    simp only [Nat.sub_self, pow_zero] at hlt
    omega
  · have hpos := digitCount_pos n
    have hle : digitCount n ≤ digitCount n - 1 := digitCount_le (by omega) (by omega)
    omega

/-! ## Intervals -/

namespace Interval

variable {i : Interval} {r s : ℚ} {place : ℤ} {tie : Tie}

/-- The number of an interval. -/
def center (i : Interval) : ℚ := i.value * 2 ^ i.unit

/-- The numbers of an interval. -/
def Holds (i : Interval) (r : ℚ) : Prop :=
  if i.closed then i.lower * 2 ^ i.unit ≤ r ∧ r ≤ i.upper * 2 ^ i.unit
  else i.lower * 2 ^ i.unit < r ∧ r < i.upper * 2 ^ i.unit

/-- The number of an interval lies between its bounds. -/
structure Proper (i : Interval) : Prop where
  /-- The lower bound is smaller. -/
  lower : i.lower < i.value
  /-- The upper bound is greater. -/
  upper : i.value < i.upper

/-- The unit of an interval is positive. -/
theorem unit_pos (i : Interval) : (0 : ℚ) < 2 ^ i.unit := zpow_pos (by norm_num) _

/-- The lower bound is below the center. -/
theorem Proper.lower_lt (hi : i.Proper) : i.lower * 2 ^ i.unit < i.center := by
  have hcast : (i.lower : ℚ) < i.value := by exact_mod_cast hi.lower
  exact mul_lt_mul_of_pos_right hcast i.unit_pos

/-- The upper bound is above the center. -/
theorem Proper.lt_upper (hi : i.Proper) : i.center < i.upper * 2 ^ i.unit := by
  have hcast : (i.value : ℚ) < i.upper := by exact_mod_cast hi.upper
  exact mul_lt_mul_of_pos_right hcast i.unit_pos

/-- What lies strictly between the bounds is in the interval. -/
theorem holds_of_lt (hlower : i.lower * 2 ^ i.unit < r) (hupper : r < i.upper * 2 ^ i.unit) :
    i.Holds r := by
  unfold Holds
  split
  · exact ⟨hlower.le, hupper.le⟩
  · exact ⟨hlower, hupper⟩

/-- Numbers between the center and a number of the interval are in the interval. -/
theorem Holds.toward (h : i.Holds r) (hi : i.Proper)
    (hs : r ≤ s ∧ s ≤ i.center ∨ i.center ≤ s ∧ s ≤ r) : i.Holds s := by
  have hlower := hi.lower_lt
  have hupper := hi.lt_upper
  unfold Holds at h ⊢
  split
  · rw [if_pos ‹_›] at h
    obtain ⟨hs, hs'⟩ | ⟨hs, hs'⟩ := hs <;> constructor <;> linarith [h.1, h.2]
  · rw [if_neg ‹_›] at h
    obtain ⟨hs, hs'⟩ | ⟨hs, hs'⟩ := hs <;> constructor <;> linarith [h.1, h.2]

/-! ## Grids -/

/-- Units and powers of ten have a common measure on the grid. -/
theorem exists_grid (i : Interval) (place : ℤ) : ∃ scale : ℚ, 0 < scale ∧
    ((i.grid place).1 : ℚ) = scale * 2 ^ i.unit ∧ ((i.grid place).2 : ℚ) = scale * 10 ^ place := by
  refine ⟨10 ^ (-place).toNat * 2 ^ (-i.unit).toNat, by positivity, ?_, ?_⟩ <;>
    simp only [grid, Nat.shiftLeft_eq, Nat.pow_eq, Nat.cast_mul, Nat.cast_pow, Nat.cast_ofNat]
  · rw [pow_toNat (b := 2) (by norm_num) i.unit, mul_assoc]
  · rw [pow_toNat (b := 10) (by norm_num) place]
    ring

/-- Comparing units with steps of the grid can be done in whole numbers. -/
theorem grid_le_iff {a b : Nat} :
    a * (i.grid place).1 ≤ b * (i.grid place).2 ↔ (a : ℚ) * 2 ^ i.unit ≤ b * 10 ^ place := by
  obtain ⟨scale, hscale, hfactor, hcell⟩ := i.exists_grid place
  rw [← Nat.cast_le (α := ℚ), Nat.cast_mul, Nat.cast_mul, hfactor, hcell, mul_left_comm,
    mul_left_comm (b : ℚ), mul_le_mul_iff_right₀ hscale]

/-- Comparing steps of the grid with units can be done in whole numbers. -/
theorem grid_ge_iff {a b : Nat} :
    b * (i.grid place).2 ≤ a * (i.grid place).1 ↔ (b : ℚ) * 10 ^ place ≤ a * 2 ^ i.unit := by
  obtain ⟨scale, hscale, hfactor, hcell⟩ := i.exists_grid place
  rw [← Nat.cast_le (α := ℚ), Nat.cast_mul, Nat.cast_mul, hfactor, hcell, mul_left_comm,
    mul_left_comm (a : ℚ), mul_le_mul_iff_right₀ hscale]

/-- A step of the grid is positive. -/
theorem cell_pos (i : Interval) (place : ℤ) : 0 < (i.grid place).2 := by
  obtain ⟨scale, hscale, _, hcell⟩ := i.exists_grid place
  have hpos : (0 : ℚ) < (i.grid place).2 := by
    rw [hcell]
    positivity
  exact_mod_cast hpos

/-- The lower point of the grid is not above the center. -/
theorem low_le (i : Interval) (place : ℤ) : i.low place * 10 ^ place ≤ i.center :=
  grid_ge_iff.1 (Nat.div_mul_le_self _ _)

/-- The lower point of the grid is less than a step below the center. -/
theorem lt_low (i : Interval) (place : ℤ) : i.center < (i.low place + 1) * 10 ^ place := by
  have hlt : ¬ (i.low place + 1) * (i.grid place).2 ≤ i.value * (i.grid place).1 := by
    rw [not_le, mul_comm (i.low place + 1)]
    exact Nat.lt_mul_div_succ _ (i.cell_pos place)
  rw [grid_ge_iff, not_le] at hlt
  exact_mod_cast hlt

/-- The upper point of the grid is not below the center. -/
theorem le_high (i : Interval) (place : ℤ) : i.center ≤ i.high place * 10 ^ place := by
  rw [high]
  split
  · refine grid_le_iff.1 (Nat.div_mul_cancel (Nat.dvd_of_mod_eq_zero ‹_›)).ge
  · exact_mod_cast (i.lt_low place).le

/-- The upper point of the grid is less than a step above the center. -/
theorem high_lt (i : Interval) (place : ℤ) :
    i.high place * 10 ^ place < i.center + 10 ^ place := by
  have hplace : (0 : ℚ) < 10 ^ place := by positivity
  rw [high]
  split
  · linarith [i.low_le place]
  · rename_i hmod
    have hlow : ¬ i.value * (i.grid place).1 ≤ i.low place * (i.grid place).2 := by
      have hdiv := Nat.div_add_mod' (i.value * (i.grid place).1) (i.grid place).2
      rw [low]
      omega
    rw [grid_le_iff, not_le, ← center] at hlow
    push_cast
    linarith

/-- The test for a point of the grid tells whether it is in the interval. -/
theorem inside_iff {n : Nat} : i.inside place n = true ↔ i.Holds (n * 10 ^ place) := by
  unfold inside Holds
  dsimp only
  split
  · rw [Bool.and_eq_true, decide_eq_true_iff, decide_eq_true_iff, grid_le_iff, grid_ge_iff]
  · rw [Bool.and_eq_true, decide_eq_true_iff, decide_eq_true_iff, ← not_le, ← not_le, grid_le_iff,
      grid_ge_iff, not_le, not_le]

/-- The nearer point of the grid is one of the two around the center. -/
theorem nearer_eq (i : Interval) (tie : Tie) (place : ℤ) :
    i.nearer tie place = i.low place ∨ i.nearer tie place = i.high place := by
  unfold nearer
  cases tie <;> grind

/-- A decimal found on a grid is the neighbour of the center from below or from above, and is in the
interval; if none is found, neither neighbour is. -/
theorem pick_cases (i : Interval) (tie : Tie) (place : ℤ) :
    (∃ n, i.pick tie place = some ⟨n, place⟩ ∧ (n = i.low place ∨ n = i.high place) ∧
      i.Holds (n * 10 ^ place)) ∨
    i.pick tie place = none ∧ ¬ i.Holds (i.low place * 10 ^ place) ∧
      ¬ i.Holds (i.high place * 10 ^ place) := by
  simp only [← inside_iff]
  -- the choice depends only on which of the two neighbours are inside
  cases hlow : i.inside place (i.low place) <;> cases hhigh : i.inside place (i.high place) <;>
    simp only [pick, hlow, hhigh]
  · simp
  · exact .inl ⟨_, rfl, .inr rfl, hhigh⟩
  · exact .inl ⟨_, rfl, .inl rfl, hlow⟩
  · refine .inl ⟨_, rfl, i.nearer_eq tie place, ?_⟩
    obtain h | h := i.nearer_eq tie place <;> rw [h] <;> assumption

/-- If no decimal is found on a grid, no point of the grid is in the interval. -/
theorem not_holds_of_pick (hi : i.Proper) (h : i.pick tie place = none) (n : Nat) :
    ¬ i.Holds (n * 10 ^ place) := by
  obtain ⟨_, hsome, _⟩ | ⟨_, hlow, hhigh⟩ := i.pick_cases tie place
  · rw [h] at hsome
    cases hsome
  intro hn
  have hplace : (0 : ℚ) < 10 ^ place := by positivity
  -- one of the neighbours lies between the center and any other point of the grid
  by_cases hle : n ≤ i.low place
  · have hcast : (n : ℚ) ≤ i.low place := by exact_mod_cast hle
    exact hlow (hn.toward hi (.inl ⟨by gcongr, i.low_le place⟩))
  · have hhighle : i.high place ≤ n := by
      rw [high]
      split <;> omega
    have hcast : (i.high place : ℚ) ≤ n := by exact_mod_cast hhighle
    exact hhigh (hn.toward hi (.inr ⟨i.le_high place, by gcongr⟩))

/-- A grid that is finer than the interval is wide has a point in it. -/
theorem exists_holds (h : 10 ^ place < (i.upper * 2 ^ i.unit - i.lower * 2 ^ i.unit : ℚ)) :
    ∃ n : ℕ, i.Holds (n * 10 ^ place) := by
  have hplace : (0 : ℚ) < 10 ^ place := by positivity
  -- the first point after the lower bound
  refine ⟨⌊(i.lower * 2 ^ i.unit / 10 ^ place : ℚ)⌋₊ + 1, holds_of_lt ?_ ?_⟩
  · rw [← div_lt_iff₀ hplace]
    exact_mod_cast Nat.lt_floor_add_one _
  · have hfloor := Nat.floor_le (show 0 ≤ i.lower * 2 ^ i.unit / (10 : ℚ) ^ place by positivity)
    rw [le_div_iff₀ hplace] at hfloor
    push_cast
    linarith

/-! ## The search -/

/-- A decimal is found on a grid, after none was on the coarser ones that were tried before. -/
structure Finds (i : Interval) (place : ℤ) (tried : Nat) (d : Decimal) : Prop where
  /-- It is on the grid. -/
  exponent : d.exponent = place - tried
  /-- It is in the interval. -/
  holds : i.Holds d.value
  /-- It is less than one step of the grid above the center. -/
  near : d.value < i.center + 10 ^ d.exponent
  /-- No point of a coarser grid is in the interval. -/
  coarser : ∀ before < tried, ∀ n : ℕ, ¬ i.Holds (n * 10 ^ (place - before))

/-- A decimal that is picked from a grid is found there. -/
theorem finds_of_pick {d : Decimal} (h : i.pick tie place = some d) : i.Finds place 0 d := by
  obtain ⟨n, hsome, hn, hholds⟩ | ⟨hnone, _⟩ := i.pick_cases tie place
  · obtain rfl : ⟨n, place⟩ = d := Option.some.inj (hsome.symm.trans h)
    refine ⟨by simp, hholds, ?_, fun _ hlt => absurd hlt (Nat.not_lt_zero _)⟩
    obtain rfl | rfl := hn
    · have hplace : (0 : ℚ) < 10 ^ place := by positivity
      exact (i.low_le place).trans_lt (by linarith)
    · exact i.high_lt place
  · rw [hnone] at h
    cases h

/-- A search whose last grid has a point in the interval finds one. -/
theorem exists_finds (hi : i.Proper) (tie : Tie) (count : Nat) : ∀ place : ℤ,
    (∃ n : ℕ, i.Holds (n * 10 ^ (place - count))) →
      ∃ tried ≤ count, i.Finds place tried (i.search tie count place) := by
  induction count with
  | zero =>
    intro place hlast
    refine ⟨0, le_rfl, ?_⟩
    cases hpick : i.pick tie place with
    | some d =>
      rw [search, hpick]
      exact finds_of_pick hpick
    | none =>
      obtain ⟨n, hn⟩ := hlast
      rw [Nat.cast_zero, sub_zero] at hn
      exact absurd hn (not_holds_of_pick hi hpick n)
  | succ count ih =>
    intro place hlast
    cases hpick : i.pick tie place with
    | some d =>
      refine ⟨0, Nat.zero_le _, ?_⟩
      rw [search, hpick]
      exact finds_of_pick hpick
    | none =>
      have hrest : place - 1 - count = place - (count + 1 : ℕ) := by push_cast; ring
      obtain ⟨tried, htried, hfinds⟩ := ih (place - 1) (by rwa [hrest])
      refine ⟨tried + 1, by omega, ?_⟩
      rw [search, hpick]
      refine ⟨?_, hfinds.holds, hfinds.near, fun before hbefore n => ?_⟩
      · rw [hfinds.exponent]
        push_cast
        ring
      · cases before with
        | zero =>
          rw [Nat.cast_zero, sub_zero]
          exact not_holds_of_pick hi hpick n
        | succ before =>
          have hplace : place - (before + 1 : ℕ) = place - 1 - before := by push_cast; ring
          rw [hplace]
          exact hfinds.coarser before (by omega) n

end Interval

/-! ## Zeros at the end -/

/-- A decimal without its zeros at the end is worth as much. -/
theorem trimZeros_value (fuel : Nat) : ∀ d : Decimal, (trimZeros d fuel).value = d.value := by
  induction fuel with
  | zero => exact fun _ => rfl
  | succ fuel ih =>
    intro d
    rw [trimZeros]
    split
    · rename_i h
      have hdigits : (d.digits : ℚ) = 10 * (d.digits / 10 : ℕ) := by
        exact_mod_cast (Nat.mul_div_cancel' (Nat.dvd_of_mod_eq_zero h.2)).symm
      rw [ih, Decimal.value, Decimal.value, hdigits, zpow_add₀ (by norm_num), zpow_one]
      ring
    · rfl

/-- Trimmed digits do not end in a zero. -/
theorem trimZeros_digits (fuel : Nat) : ∀ d : Decimal, d.digits ≠ 0 → d.digits < 10 ^ fuel →
    (trimZeros d fuel).digits % 10 ≠ 0 ∧ (trimZeros d fuel).digits ≤ d.digits := by
  induction fuel with
  | zero =>
    intro d hne hlt
    rw [pow_zero] at hlt
    omega
  | succ fuel ih =>
    intro d hne hlt
    rw [trimZeros]
    split
    · rename_i h
      rw [pow_succ] at hlt
      obtain ⟨hmod, hle⟩ := ih ⟨d.digits / 10, d.exponent + 1⟩
        (show d.digits / 10 ≠ 0 by omega) (show d.digits / 10 < 10 ^ fuel by omega)
      exact ⟨hmod, hle.trans (Nat.div_le_self _ _)⟩
    · rename_i h
      exact ⟨fun hmod => h ⟨hne, hmod⟩, le_rfl⟩

/-! ## The interval of a double -/

variable {x : Binary64} {tie : Tie}

/-- The lower bound is nearer if the word starts a binade after the first one. -/
theorem interval_lower (x : Binary64) : x.interval.lower = 4 * x.significand -
    if x.magnitudeBits % hidden = 0 ∧ 1 < x.magnitudeBits / hidden then 1 else 2 := by
  unfold interval exponentField
  refine congrArg (4 * x.significand - ·) (if_congr ?_ rfl rfl)
  rw [Bool.and_eq_true, decide_eq_true_iff, decide_eq_true_iff]

/-- A double is at four times its significand in its interval. -/
theorem interval_value (x : Binary64) : x.interval.value = 4 * x.significand := rfl

/-- The upper bound is half a gap above. -/
theorem interval_upper (x : Binary64) : x.interval.upper = 4 * x.significand + 2 := rfl

/-- The interval of a double other than zero has the double inside. -/
theorem proper_interval (hx : x.magnitudeBits ≠ 0) : x.interval.Proper := by
  have hpos := significand_pos hx
  constructor
  · rw [interval_lower, interval_value]
    split <;> omega
  · rw [interval_upper, interval_value]
    omega

/-- The unit of the interval is a quarter of the gap. -/
theorem unit_interval (x : Binary64) : (2 : ℚ) ^ x.interval.unit = gap x.magnitudeBits / 4 := by
  show (2 : ℚ) ^ (x.exponent - 2) = _
  rw [zpow_sub₀ (by norm_num), exponent_eq, gap]
  norm_num

/-- The center of the interval is the number of the double. -/
theorem center_interval (x : Binary64) : x.interval.center = point x.magnitudeBits := by
  rw [Interval.center, unit_interval, interval_value, point, ← significand_eq]
  push_cast
  ring

/-- The upper bound of the interval is the half-way point above. -/
theorem upper_interval (x : Binary64) :
    x.interval.upper * 2 ^ x.interval.unit = midpoint x.magnitudeBits := by
  rw [unit_interval, interval_upper, midpoint, point, ← significand_eq]
  push_cast
  ring

/-- The gap below a word is half as wide if the word starts a binade after the first one. -/
theorem gap_previous {word previous : Nat} (h : word = previous + 1) :
    gap previous = if word % hidden = 0 ∧ 1 < word / hidden then gap word / 2 else gap word := by
  subst h
  obtain hsame | ⟨hnext, hword⟩ := binade_succ previous
  · rw [if_neg, gap, gap, hsame]
    rintro ⟨hmod, hdiv⟩
    simp only [binade, hidden_eq] at *
    omega
  · rw [if_pos, gap_of_binade hnext]
    · ring
    · simp only [binade, hidden_eq] at *
      omega

/-- The lower bound of the interval is the half-way point below. -/
theorem lower_interval {previous : Nat} (hx : x.magnitudeBits = previous + 1) :
    x.interval.lower * 2 ^ x.interval.unit = midpoint previous := by
  have hpos : 0 < x.significand := significand_pos (by omega)
  have hpoint : point previous = x.significand * gap x.magnitudeBits - gap previous := by
    rw [eq_sub_iff_add_eq, ← point_succ, ← hx, point, significand_eq]
  rw [unit_interval, interval_lower, midpoint, hpoint, gap_previous hx]
  split
  · rw [Nat.cast_sub (by omega)]
    push_cast
    ring
  · rw [Nat.cast_sub (by omega)]
    push_cast
    ring

/-- The interval of a double other than zero holds the numbers that its word covers. -/
theorem holds_interval_iff (hx : x.magnitudeBits ≠ 0) {r : ℚ} :
    x.interval.Holds r ↔ Covers x.magnitudeBits r := by
  obtain ⟨previous, hprevious⟩ := Nat.exists_eq_succ_of_ne_zero hx
  have hclosed : x.interval.closed = true ↔ x.magnitudeBits % 2 = 0 := by
    rw [← significand_even_iff]
    exact decide_eq_true_iff
  rw [Interval.Holds, lower_interval hprevious, upper_interval]
  by_cases heven : x.magnitudeBits % 2 = 0
  · rw [if_pos (hclosed.2 heven)]
    constructor
    · rintro ⟨hlower, hupper⟩
      refine ⟨fun other hother => ?_, hupper, fun _ _ _ => heven, fun _ => heven⟩
      obtain rfl : previous = other := by omega
      exact hlower
    · exact fun h => ⟨h.lower previous hprevious, h.upper⟩
  · rw [if_neg (mt hclosed.1 heven)]
    constructor
    · rintro ⟨hlower, hupper⟩
      refine ⟨fun other hother => ?_, hupper.le, fun other hother heq => ?_,
        fun heq => absurd heq hupper.ne⟩
      · obtain rfl : previous = other := by omega
        exact hlower.le
      · obtain rfl : previous = other := by omega
        exact absurd heq hlower.ne
    · exact fun h => ⟨(h.lower previous hprevious).lt_of_ne fun heq =>
        heven (h.even_lower previous hprevious heq), h.upper.lt_of_ne fun heq =>
        heven (h.even_upper heq)⟩

/-! ## The decimal exponent -/

/-- The digits before the point give the powers of ten around a ratio. -/
theorem digitCount_bounds {top bottom : Nat} (hbottom : 0 < bottom) (h : bottom ≤ top) :
    (10 : ℚ) ^ ((digitCount (top / bottom) : ℤ) - 1) ≤ top / bottom ∧
      (top / bottom : ℚ) ≤ 10 ^ (digitCount (top / bottom) : ℤ) := by
  have hquotient : top / bottom ≠ 0 := (Nat.div_pos h hbottom).ne'
  have hpos : (0 : ℚ) < bottom := by exact_mod_cast hbottom
  have hcount := digitCount_pos (top / bottom)
  constructor
  · rw [le_div_iff₀ hpos, ← Nat.cast_pred hcount, zpow_natCast]
    calc (10 : ℚ) ^ (digitCount (top / bottom) - 1) * bottom
        ≤ (top / bottom : ℕ) * bottom := by
          gcongr
          exact_mod_cast pow_digitCount_le hquotient
      _ ≤ top := by exact_mod_cast Nat.div_mul_le_self top bottom
  · rw [div_le_iff₀ hpos, zpow_natCast]
    have hlt := lt_pow_digitCount (top / bottom)
    calc (top : ℚ) ≤ (top / bottom + 1 : ℕ) * bottom := by
          have := Nat.lt_mul_div_succ top hbottom
          rw [mul_comm] at this
          exact_mod_cast this.le
      _ ≤ 10 ^ digitCount (top / bottom) * bottom := by
          gcongr
          exact_mod_cast hlt

/-- A double lies between two neighbouring powers of ten. -/
theorem decimalExponent_bounds (hx : x.magnitudeBits ≠ 0) :
    (10 : ℚ) ^ (x.decimalExponent - 1) ≤ point x.magnitudeBits ∧
      point x.magnitudeBits ≤ 10 ^ x.decimalExponent := by
  obtain ⟨htop, hbottom⟩ := ratio_pos hx
  rw [← magnitude_eq, magnitude_ratio]
  unfold decimalExponent
  dsimp only
  split
  · exact digitCount_bounds hbottom ‹_›
  · -- below one, the digits are those of the inverse
    obtain ⟨hlower, hupper⟩ := digitCount_bounds htop (Nat.le_of_not_le ‹_›)
    have hratio : (0 : ℚ) < x.ratio.2 / x.ratio.1 :=
      div_pos (by exact_mod_cast hbottom) (by exact_mod_cast htop)
    rw [← inv_div (x.ratio.2 : ℚ)]
    constructor
    · rw [show ∀ count : ℤ, 1 - count - 1 = -count by intro; ring, zpow_neg]
      exact inv_anti₀ hratio hupper
    · rw [show ∀ count : ℤ, 1 - count = -(count - 1) by intro; ring, zpow_neg]
      exact inv_anti₀ (by positivity) hlower

/-! ## The shortest decimal -/

/-- Seventeen digits make a grid that is finer than the interval is wide. -/
theorem grid_lt_interval (hx : x.magnitudeBits ≠ 0) :
    (10 : ℚ) ^ (x.decimalExponent - 17) <
      x.interval.upper * 2 ^ x.interval.unit - x.interval.lower * 2 ^ x.interval.unit := by
  have hbound := (decimalExponent_bounds hx).1
  rw [← center_interval, Interval.center, interval_value] at hbound
  have hpower : (10 : ℚ) ^ (x.decimalExponent - 1) = 10 ^ 16 * 10 ^ (x.decimalExponent - 17) := by
    rw [← zpow_natCast, ← zpow_add₀ (by norm_num)]
    congr 1
    ring
  have hwide : 4 * x.significand + 10 ^ 16 * x.interval.lower < 10 ^ 16 * x.interval.upper := by
    have hlt := significand_lt x
    have hpos := significand_pos hx
    rw [interval_lower, interval_upper]
    split
    · -- the interval is narrower only where the significand is the least normal one
      have hhidden : x.significand = 2 ^ 52 := by
        rename_i h
        rw [significand, exponentField, if_neg (by omega), h.1, hidden_eq, add_zero]
      omega
    · omega
  have hcast : (4 * x.significand + 10 ^ 16 * x.interval.lower : ℚ) <
      10 ^ 16 * x.interval.upper := by exact_mod_cast hwide
  have hunit := mul_lt_mul_of_pos_right hcast x.interval.unit_pos
  rw [hpower] at hbound
  push_cast at hbound
  linarith

/-- What the search finds. -/
theorem exists_found (hx : x.magnitudeBits ≠ 0) (tie : Tie) : ∃ tried ≤ 16,
    x.interval.Finds (x.decimalExponent - 1) tried
      (x.interval.search tie 16 (x.decimalExponent - 1)) := by
  refine Interval.exists_finds (proper_interval hx) tie 16 _ ?_
  rw [show x.decimalExponent - 1 - (16 : ℕ) = x.decimalExponent - 17 by push_cast; ring]
  exact Interval.exists_holds (grid_lt_interval hx)

/-- A decimal on the grid after `tried` ones that is less than one step above the double has at most
one digit more than that, or is a power of ten. -/
theorem digits_le_of_finds (hx : x.magnitudeBits ≠ 0) {tried : Nat} {d : Decimal}
    (h : x.interval.Finds (x.decimalExponent - 1) tried d) : d.digits ≤ 10 ^ (tried + 1) := by
  have hnear := h.near
  have hupper := (decimalExponent_bounds hx).2
  have hplace : (0 : ℚ) < 10 ^ d.exponent := by positivity
  have hpower : (10 : ℚ) ^ x.decimalExponent = 10 ^ (tried + 1) * 10 ^ d.exponent := by
    rw [h.exponent, ← zpow_natCast, ← zpow_add₀ (by norm_num)]
    congr 1
    push_cast
    ring
  rw [center_interval, Decimal.value] at hnear
  have hlt : (d.digits : ℚ) * 10 ^ d.exponent < (10 ^ (tried + 1) + 1) * 10 ^ d.exponent := by
    linarith
  have hcast : (d.digits : ℚ) < 10 ^ (tried + 1) + 1 := lt_of_mul_lt_mul_right hlt hplace.le
  exact Nat.lt_succ_iff.1 (by exact_mod_cast hcast)

/-- A decimal in the interval of a double has more digits than the grids without points in it. -/
theorem lt_digitCount_of_finds (hx : x.magnitudeBits ≠ 0) {tried digits : Nat} {exponent : ℤ}
    {d : Decimal} (h : x.interval.Finds (x.decimalExponent - 1) tried d)
    (hholds : x.interval.Holds (digits * 10 ^ exponent)) : tried < digitCount digits := by
  have hlower := (decimalExponent_bounds hx).1
  rw [← center_interval] at hlower
  have hcount := digitCount_pos digits
  by_contra hle
  -- the grid of decimals with so many digits, the first of which stands before that of the double
  have hgrid : ∀ n : ℕ, ¬ x.interval.Holds (n * 10 ^ (x.decimalExponent - digitCount digits)) := by
    intro n
    have hcoarser := h.coarser (digitCount digits - 1) (by omega) n
    rwa [Nat.cast_pred hcount, show ∀ p c : ℤ, p - 1 - (c - 1) = p - c by intros; ring] at hcoarser
  by_cases hbelow : digits * 10 ^ exponent < (10 : ℚ) ^ (x.decimalExponent - 1)
  · -- the power of ten between the decimal and the double is on that grid
    refine hgrid (10 ^ (digitCount digits - 1)) ?_
    have hpower : ((10 ^ (digitCount digits - 1) : ℕ) : ℚ) *
        10 ^ (x.decimalExponent - digitCount digits) = 10 ^ (x.decimalExponent - 1) := by
      rw [Nat.cast_pow, Nat.cast_ofNat, ← zpow_natCast, ← zpow_add₀ (by norm_num),
        Nat.cast_pred hcount]
      congr 1
      ring
    rw [hpower]
    exact hholds.toward (proper_interval hx) (.inl ⟨hbelow.le, hlower⟩)
  · -- otherwise the decimal itself is on the grid
    have hexponent : x.decimalExponent - digitCount digits ≤ exponent := by
      have hdigits : (digits : ℚ) < 10 ^ (digitCount digits : ℤ) := by
        rw [zpow_natCast]
        exact_mod_cast lt_pow_digitCount digits
      have hlt : (10 : ℚ) ^ (x.decimalExponent - 1) < 10 ^ (digitCount digits + exponent) := by
        rw [zpow_add₀ (by norm_num)]
        exact (not_lt.1 hbelow).trans_lt (by gcongr)
      have := (zpow_lt_zpow_iff_right₀ (by norm_num)).1 hlt
      omega
    obtain ⟨zeros, hzeros⟩ := Int.le.dest hexponent
    refine hgrid (digits * 10 ^ zeros) ?_
    rw [← hzeros, zpow_add₀ (by norm_num), zpow_natCast] at hholds
    convert hholds using 1
    push_cast
    ring

/-- **The shortest decimal of a double rounds to it.** It has no zero at the end and at most
seventeen digits. -/
theorem shortest_spec (hx : x.magnitudeBits ≠ 0) (tie : Tie) :
    Covers x.magnitudeBits (x.shortest tie).value ∧ (x.shortest tie).digits % 10 ≠ 0 ∧
      (x.shortest tie).digits < 10 ^ 17 ∧
      ∀ (digits : ℕ) (exponent : ℤ), Covers x.magnitudeBits (digits * 10 ^ exponent) →
        digitCount (x.shortest tie).digits ≤ digitCount digits := by
  obtain ⟨tried, htried, hfinds⟩ := exists_found hx tie
  unfold shortest
  dsimp only
  generalize x.interval.search tie 16 (x.decimalExponent - 1) = found at *
  have hcovers := (holds_interval_iff hx).1 hfinds.holds
  have hne : found.digits ≠ 0 := by
    intro hzero
    have hpos := hcovers.pos hx
    rw [Decimal.value, hzero, Nat.cast_zero, zero_mul] at hpos
    exact lt_irrefl _ hpos
  obtain ⟨hmod, hle⟩ := trimZeros_digits _ found hne (lt_pow_digitCount _)
  -- the power of ten that the digits may reach ends in a zero, and trimmed digits do not
  have hten : (10 ^ (tried + 1)) % 10 = 0 := by
    rw [pow_succ]
    exact Nat.mul_mod_left _ _
  have hdigits : (trimZeros found (digitCount found.digits)).digits < 10 ^ (tried + 1) :=
    (hle.trans (digits_le_of_finds hx hfinds)).lt_of_ne fun heq => hmod (heq ▸ hten)
  refine ⟨by rwa [trimZeros_value], hmod, ?_, fun digits exponent hother => ?_⟩
  · exact hdigits.trans_le (Nat.pow_le_pow_right (by decide) (by omega))
  · have hlt := lt_digitCount_of_finds hx hfinds ((holds_interval_iff hx).2 hother)
    exact (digitCount_le (Nat.succ_pos _) hdigits).trans hlt

end Binary64

end PatchCompiler
