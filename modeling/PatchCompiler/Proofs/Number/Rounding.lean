import PatchCompiler.Proofs.Number.Nearest

/-! # Rounded arithmetic

The word that the rounding of a ratio computes covers the ratio (`Binary64.covers_nearestWord`), so
that products, quotients and conversions of integers are the nearest doubles. Words move little when
the numbers they cover move little: two numbers less than `n` gaps apart are covered by words at most
`n` apart (`Binary64.Covers.le_add`). -/

namespace PatchCompiler

namespace Binary64

/-! ## Nearest integers -/

/-- The rounded quotient is at most one half off, and even if it is one half off. -/
theorem divideToEven_spec {n d : Nat} (hd : 0 < d) :
    (divideToEven n d - 1 / 2 : ℚ) ≤ n / d ∧ (n / d : ℚ) ≤ divideToEven n d + 1 / 2 ∧
      ((n / d : ℚ) = divideToEven n d - 1 / 2 ∨ (n / d : ℚ) = divideToEven n d + 1 / 2 →
        divideToEven n d % 2 = 0) := by
  -- the same bounds without quotients, from the three cases of the definition
  have hmultiples : 2 * (divideToEven n d * d) ≤ 2 * n + d ∧ 2 * n ≤ 2 * (divideToEven n d * d) + d ∧
      (2 * (divideToEven n d * d) = 2 * n + d ∨ 2 * n = 2 * (divideToEven n d * d) + d →
        divideToEven n d % 2 = 0) := by
    have hdiv := Nat.div_add_mod' n d
    have hmod := Nat.mod_lt n hd
    have hnext : (n / d + 1) * d = n / d * d + d := Nat.succ_mul _ d
    unfold divideToEven
    dsimp only
    split
    · omega
    split
    · omega
    obtain heven | hodd := Nat.mod_two_eq_zero_or_one (n / d)
    · rw [heven, Nat.add_zero]
      omega
    · rw [hodd]
      omega
  obtain ⟨hlower, hupper, heven⟩ := hmultiples
  generalize divideToEven n d = k at *
  have hpos : (0 : ℚ) < d := by exact_mod_cast hd
  have hlower' : (2 * (k * d) : ℚ) ≤ 2 * n + d := by exact_mod_cast hlower
  have hupper' : (2 * n : ℚ) ≤ 2 * (k * d) + d := by exact_mod_cast hupper
  refine ⟨?_, ?_, fun h => heven (h.imp (fun h => ?_) fun h => ?_)⟩
  · rw [le_div_iff₀ hpos]
    linarith
  · rw [div_le_iff₀ hpos]
    linarith
  · rw [div_eq_iff hpos.ne'] at h
    have : (2 * (k * d) : ℚ) = 2 * n + d := by linarith
    exact_mod_cast this
  · rw [div_eq_iff hpos.ne'] at h
    have : (2 * n : ℚ) = 2 * (k * d) + d := by linarith
    exact_mod_cast this

/-! ## The last place of a ratio -/

section

variable {numerator denominator : Nat}

/-- The denominator stays positive when a ratio is scaled down. -/
theorem scaleDown_pos (numerator : Nat) (hd : 0 < denominator) (shift : ℤ) :
    0 < (scaleDown numerator denominator shift).2 := by
  simp only [scaleDown, Nat.shiftLeft_eq]
  exact Nat.mul_pos hd (Nat.two_pow_pos _)

/-- Scaling down divides by a power of two. -/
theorem scaleDown_ratio (numerator : Nat) (hd : 0 < denominator) (shift : ℤ) :
    ((scaleDown numerator denominator shift).1 : ℚ) =
      numerator / denominator / 2 ^ shift * (scaleDown numerator denominator shift).2 := by
  have hden : (denominator : ℚ) ≠ 0 := by exact_mod_cast hd.ne'
  simp only [scaleDown, Nat.shiftLeft_eq, Nat.cast_mul, Nat.cast_pow, Nat.cast_ofNat]
  rw [pow_toNat (by norm_num) shift]
  field_simp

/-- A scaled ratio is below the hidden bit exactly if the ratio is below it at this scale. -/
theorem scaleDown_lt_iff (numerator : Nat) (hd : 0 < denominator) (shift : ℤ) :
    (scaleDown numerator denominator shift).1 <
        hidden * (scaleDown numerator denominator shift).2 ↔
      (numerator / denominator : ℚ) < 2 ^ 52 * 2 ^ shift := by
  have hbottom : (0 : ℚ) < (scaleDown numerator denominator shift).2 := by
    exact_mod_cast scaleDown_pos numerator hd shift
  rw [← Nat.cast_lt (α := ℚ), scaleDown_ratio numerator hd, Nat.cast_mul, hidden_eq,
    mul_lt_mul_iff_left₀ hbottom, div_lt_iff₀ (by positivity)]
  norm_num

/-- The leading binary digits of two numbers leave two last places for their ratio to choose from. -/
theorem ratio_bounds_of_log2 (hn : 0 < numerator) (hd : 0 < denominator) {guess : ℤ}
    (hguess : (numerator.log2 : ℤ) - (denominator.log2 : ℤ) - 52 = guess) :
    (2 : ℚ) ^ 51 * 2 ^ guess ≤ numerator / denominator ∧
      (numerator / denominator : ℚ) < 2 ^ 53 * 2 ^ guess := by
  have hden : (0 : ℚ) < denominator := by exact_mod_cast hd
  have hpower : ∀ shift : ℕ, (2 : ℚ) ^ (numerator.log2 + shift) =
      2 ^ (52 + shift) * 2 ^ guess * 2 ^ denominator.log2 := by
    intro shift
    rw [← zpow_natCast, ← zpow_natCast, ← zpow_natCast, ← zpow_add₀ (by norm_num),
      ← zpow_add₀ (by norm_num)]
    congr 1
    push_cast
    omega
  constructor
  · have hnum : (2 : ℚ) ^ numerator.log2 ≤ numerator := by exact_mod_cast Nat.log2_self_le hn.ne'
    have hlog : (denominator : ℚ) < 2 ^ (denominator.log2 + 1) := by
      exact_mod_cast Nat.lt_log2_self
    rw [le_div_iff₀ hden]
    calc (2 : ℚ) ^ 51 * 2 ^ guess * denominator
        ≤ 2 ^ 51 * 2 ^ guess * 2 ^ (denominator.log2 + 1) := by gcongr
      _ = 2 ^ 52 * 2 ^ guess * 2 ^ denominator.log2 := by ring
      _ ≤ numerator := (hpower 0).symm.trans_le hnum
  · have hnum : (numerator : ℚ) < 2 ^ (numerator.log2 + 1) := by exact_mod_cast Nat.lt_log2_self
    have hlog : (2 : ℚ) ^ denominator.log2 ≤ denominator := by
      exact_mod_cast Nat.log2_self_le hd.ne'
    rw [div_lt_iff₀ hden]
    calc (numerator : ℚ) < 2 ^ 53 * 2 ^ guess * 2 ^ denominator.log2 := hnum.trans_eq (hpower 1)
      _ ≤ 2 ^ 53 * 2 ^ guess * denominator := by gcongr

/-- Before it is raised to the least one, the last place leaves fifty-three binary digits. -/
theorem exists_place (hn : 0 < numerator) (hd : 0 < denominator) :
    ∃ place : ℤ, lastPlace numerator denominator = max (-1074) place ∧
      (numerator / denominator : ℚ) < 2 ^ 53 * 2 ^ place ∧
      (2 : ℚ) ^ 52 * 2 ^ place ≤ numerator / denominator := by
  generalize hguess : (numerator.log2 : ℤ) - (denominator.log2 : ℤ) - 52 = guess
  obtain ⟨hlower, hupper⟩ := ratio_bounds_of_log2 hn hd hguess
  refine ⟨if (scaleDown numerator denominator guess).1 <
    hidden * (scaleDown numerator denominator guess).2 then guess - 1 else guess, ?_, ?_⟩
  · unfold lastPlace
    rw [hguess]
  -- the guess is one too great if only fifty-two digits are left
  split
  · rename_i h
    have hhalf : (2 : ℚ) ^ guess = 2 * 2 ^ (guess - 1) := by
      rw [zpow_sub_one₀ (by norm_num)]
      ring
    rw [scaleDown_lt_iff numerator hd, hhalf] at h
    rw [hhalf] at hlower
    exact ⟨by linarith, by linarith⟩
  · rename_i h
    rw [scaleDown_lt_iff numerator hd, not_lt] at h
    exact ⟨hupper, h⟩

/-- A ratio has fifty-three binary digits at or above its last place, or fewer if that is the least
one. -/
theorem lastPlace_spec (hn : 0 < numerator) (hd : 0 < denominator) :
    -1074 ≤ lastPlace numerator denominator ∧
      (numerator / denominator : ℚ) < 2 ^ 53 * 2 ^ lastPlace numerator denominator ∧
      (lastPlace numerator denominator = -1074 ∨
        (2 : ℚ) ^ 52 * 2 ^ lastPlace numerator denominator ≤ numerator / denominator) := by
  obtain ⟨place, hlast, hless, hmore⟩ := exists_place hn hd
  have hmono : (2 : ℚ) ^ place ≤ 2 ^ max (-1074) place :=
    zpow_le_zpow_right₀ (by norm_num) (le_max_right _ _)
  rw [hlast]
  refine ⟨le_max_left _ _, hless.trans_le (by gcongr), ?_⟩
  obtain h | h := max_choice (-1074) place
  · exact .inl h
  · exact .inr (by rwa [h])

end

/-! ## Covering words -/

/-- The points of a binade, its end included, are the multiples of its gap. -/
theorem point_of_binade {binades steps : Nat} (hsteps : steps ≤ 2 ^ 53)
    (h : binades = 0 ∨ 2 ^ 52 ≤ steps) :
    point (binades * 2 ^ 52 + steps) = steps * 2 ^ ((binades : ℤ) - 1074) ∧
      binades ≤ binade (binades * 2 ^ 52 + steps) := by
  obtain hlt | rfl := hsteps.lt_or_eq
  · have hbinade : binade (binades * 2 ^ 52 + steps) = binades := by
      rw [binade, hidden_eq]
      omega
    rw [point_eq, gap, hbinade]
    refine ⟨?_, le_rfl⟩
    push_cast
    ring
  · -- the end of a binade starts the next one, where the gap is twice as wide
    have hbinade : binade (binades * 2 ^ 52 + 2 ^ 53) = binades + 1 := by
      rw [binade, hidden_eq]
      omega
    have hgap : (2 : ℚ) ^ (((binades + 1 : ℕ) : ℤ) - 1074) = 2 * 2 ^ ((binades : ℤ) - 1074) := by
      rw [show ((binades + 1 : ℕ) : ℤ) - 1074 = ((binades : ℤ) - 1074) + 1 by push_cast; ring,
        zpow_add_one₀ (by norm_num), mul_comm]
    rw [point_eq, gap, hbinade, hgap]
    refine ⟨?_, Nat.le_succ _⟩
    push_cast
    ring

/-- The lower half-way point of a multiple of the gap is half a gap below it; at the start of a binade
it is nearer. -/
theorem midpoint_of_steps {binades steps previous : Nat} {unit : ℚ}
    (hunit : unit = 2 ^ ((binades : ℤ) - 1074)) (hsteps : steps ≤ 2 ^ 53)
    (h : binades = 0 ∨ 2 ^ 52 ≤ steps) (hnext : binades * 2 ^ 52 + steps = previous + 1) :
    midpoint previous = (steps - 1 / 2) * unit ∨ steps = 2 ^ 52 ∧ binades ≠ 0 := by
  by_cases hstart : steps = 2 ^ 52 ∧ binades ≠ 0
  · exact .inr hstart
  left
  have hpositive : 1 ≤ steps := by omega
  have hpoint := (point_of_binade hsteps h).1
  have hbelow := (point_of_binade (show steps - 1 ≤ 2 ^ 53 by omega)
    (show binades = 0 ∨ 2 ^ 52 ≤ steps - 1 by omega)).1
  rw [hnext, ← hunit] at hpoint
  rw [show binades * 2 ^ 52 + (steps - 1) = previous by omega, ← hunit,
    Nat.cast_sub hpositive] at hbelow
  rw [midpoint_eq, hpoint, hbelow]
  push_cast
  ring

/-- The nearest multiple of the last place is a covering word. -/
theorem covers_of_steps {binades steps : Nat} {r unit : ℚ}
    (hunit : unit = 2 ^ ((binades : ℤ) - 1074)) (hsteps : steps ≤ 2 ^ 53)
    (h : binades = 0 ∨ 2 ^ 52 * unit ≤ r)
    (hlower : (steps - 1 / 2) * unit ≤ r)
    (hupper : r ≤ (steps + 1 / 2) * unit)
    (hlower_even : r = (steps - 1 / 2) * unit → steps % 2 = 0)
    (hupper_even : r = (steps + 1 / 2) * unit → steps % 2 = 0) :
    Covers (binades * 2 ^ 52 + steps) r := by
  have hplace : 0 < unit := hunit ▸ zpow_pos (by norm_num) _
  have hnormal : binades = 0 ∨ 2 ^ 52 ≤ steps := by
    refine h.imp_right fun h => ?_
    have hlt : ((2 : ℚ) ^ 52) < steps + 1 :=
      lt_of_mul_lt_mul_right (by linarith) hplace.le
    exact Nat.lt_succ_iff.1 (by exact_mod_cast hlt)
  obtain ⟨hpoint, hbinade⟩ := point_of_binade hsteps hnormal
  have hprevious := fun previous => @midpoint_of_steps _ _ previous _ hunit hsteps hnormal
  generalize hword : binades * 2 ^ 52 + steps = word at hpoint hbinade hprevious ⊢
  rw [← hunit] at hpoint
  have hgap : unit ≤ gap word := hunit ▸ zpow_le_zpow_right₀ (by norm_num) (by omega)
  have hmid : (steps + 1 / 2) * unit ≤ midpoint word := by
    rw [midpoint, hpoint]
    linarith
  -- where the lower half-way point is nearer, the number is above the point anyway
  have hbelow : ∀ previous, word = previous + 1 →
      midpoint previous = (steps - 1 / 2) * unit ∨ midpoint previous < r := by
    rintro previous rfl
    refine (hprevious previous rfl).imp_right fun hstart => ?_
    calc midpoint previous < point (previous + 1) := midpoint_lt_point previous
      _ = steps * unit := hpoint
      _ ≤ r := by
        rw [hstart.1, Nat.cast_pow, Nat.cast_ofNat]
        exact h.resolve_left hstart.2
  refine ⟨fun previous hnext => ?_, hupper.trans hmid, fun previous hnext heq => ?_, fun heq => ?_⟩
  · obtain hcase | hcase := hbelow previous hnext
    · rwa [hcase]
    · exact hcase.le
  · obtain hcase | hcase := hbelow previous hnext
    · have := hlower_even (heq.symm.trans hcase)
      omega
    · exact absurd heq hcase.ne
  · have := hupper_even (le_antisymm hupper (hmid.trans heq.ge))
    omega

/-- The word nearest to a ratio, also if it is beyond the word of infinity. -/
def nearestWord (numerator denominator : Nat) : Nat :=
  (lastPlace numerator denominator + 1074).toNat * hidden +
    divideToEven (scaleDown numerator denominator (lastPlace numerator denominator)).1
      (scaleDown numerator denominator (lastPlace numerator denominator)).2

/-- The computed word covers the ratio. -/
theorem covers_nearestWord {numerator denominator : Nat} (hn : 0 < numerator)
    (hd : 0 < denominator) :
    Covers (nearestWord numerator denominator) (numerator / denominator) := by
  obtain ⟨hleast, hless, hmore⟩ := lastPlace_spec hn hd
  unfold nearestWord
  rw [hidden_eq]
  generalize lastPlace numerator denominator = place at *
  have hbottom := scaleDown_pos numerator hd place
  have hratio := scaleDown_ratio numerator hd place
  obtain ⟨hlower, hupper, heven⟩ :=
    divideToEven_spec (n := (scaleDown numerator denominator place).1) hbottom
  generalize divideToEven _ _ = steps at *
  have hcell : ((scaleDown numerator denominator place).2 : ℚ) ≠ 0 := by exact_mod_cast hbottom.ne'
  have hplace : (2 : ℚ) ^ place = 2 ^ (((place + 1074).toNat : ℤ) - 1074) := by
    congr 1
    omega
  have hunit : (0 : ℚ) < 2 ^ place := by positivity
  -- both sides are compared in units of the last place
  rw [hratio, mul_div_cancel_right₀ _ hcell] at hlower hupper heven
  rw [le_div_iff₀ hunit] at hlower
  rw [div_le_iff₀ hunit] at hupper
  rw [div_eq_iff hunit.ne', div_eq_iff hunit.ne'] at heven
  have hsteps : steps ≤ 2 ^ 53 := by
    have hlt : (steps - 1 / 2 : ℚ) < 2 ^ 53 :=
      lt_of_mul_lt_mul_right (hlower.trans_lt hless) hunit.le
    have hlt' : (steps : ℚ) < 2 ^ 53 + 1 := by linarith
    exact Nat.lt_succ_iff.1 (by exact_mod_cast hlt')
  refine covers_of_steps hplace hsteps (hmore.imp_left fun h => ?_) hlower hupper
    (fun h => heven (.inl h)) (fun h => heven (.inr h))
  rw [h]
  rfl

/-- A double is the rounded form of a number: a word that covers it, or that of infinity if all such
words are beyond it. -/
def IsRounded (x : Binary64) (r : ℚ) : Prop :=
  x.isNegative = false ∧ ∃ word, Covers word r ∧ x.magnitudeBits = min word infinityBits

/-- A ratio is rounded to the double that is made of it. -/
theorem isRounded_ofRatio (numerator : Nat) {denominator : Nat} (hd : 0 < denominator) :
    IsRounded (ofRatio numerator denominator) (numerator / denominator) := by
  unfold ofRatio
  split
  · rename_i hzero
    refine ⟨isNegative_ofMagnitude (by decide), 0, ?_, magnitudeBits_ofMagnitude (by decide)⟩
    rw [hzero, Nat.cast_zero, zero_div]
    exact covers_zero
  · rename_i hne
    have hword : min (nearestWord numerator denominator) infinityBits < 2 ^ 63 :=
      (min_le_right _ _).trans_lt (by decide)
    exact ⟨isNegative_ofMagnitude hword, _, covers_nearestWord (Nat.pos_of_ne_zero hne) hd,
      magnitudeBits_ofMagnitude hword⟩

/-- A natural number is rounded to the double that is made of it. -/
theorem isRounded_ofNat (n : Nat) : IsRounded (ofNat n) n := by
  have h := isRounded_ofRatio n Nat.one_pos
  rwa [Nat.cast_one, div_one] at h

/-- A power of ten is rounded to the double that is made of it. -/
theorem isRounded_powerOfTen (exponent : Nat) :
    IsRounded (powerOfTen exponent) (10 ^ exponent) := by
  exact_mod_cast isRounded_ofNat (10 ^ exponent)

/-- A product is rounded to the product of doubles. -/
theorem isRounded_mul (x y : Binary64) :
    IsRounded (x.mulMagnitude y) (x.magnitude * y.magnitude) := by
  rw [magnitude_ratio, magnitude_ratio, div_mul_div_comm]
  have h := isRounded_ofRatio (x.ratio.1 * y.ratio.1)
    (Nat.mul_pos (ratio_bottom_pos x) (ratio_bottom_pos y))
  push_cast at h
  exact h

/-- A quotient is rounded to the quotient of doubles. -/
theorem isRounded_div (x : Binary64) {y : Binary64} (hy : y.magnitudeBits ≠ 0) :
    IsRounded (x.divMagnitude y) (x.magnitude / y.magnitude) := by
  rw [magnitude_ratio, magnitude_ratio, div_div_div_eq]
  have h := isRounded_ofRatio (x.ratio.1 * y.ratio.2)
    (Nat.mul_pos (ratio_bottom_pos x) (ratio_pos hy).1)
  push_cast at h
  exact h

/-! ## Movements of words -/

variable {word other : Nat} {r s : ℚ}

/-- Larger numbers are covered by larger words. -/
theorem Covers.mono (h : Covers word r) (h' : Covers other s) (hle : r ≤ s) : word ≤ other := by
  by_contra hlt
  obtain ⟨previous, rfl⟩ : ∃ previous, word = previous + 1 := ⟨word - 1, by omega⟩
  have hmid : midpoint other ≤ midpoint previous := midpoint_strictMono.monotone (by omega)
  have hlower := h.lower previous rfl
  have hupper := h'.upper
  obtain rfl : r = s := by linarith
  exact hlt (h.unique h').le

/-- Gaps do not become smaller. -/
theorem gap_mono {first second : Nat} (h : first ≤ second) : gap first ≤ gap second := by
  have hbinade : binade first ≤ binade second :=
    Nat.sub_le_sub_right (Nat.div_le_div_right h) 1
  exact zpow_le_zpow_right₀ (by norm_num) (by omega)

/-- Half-way points are at least a gap apart. -/
theorem midpoint_add (word count : Nat) :
    midpoint word + count * gap word ≤ midpoint (word + count) := by
  induction count with
  | zero => simp
  | succ count ih =>
    have hstep : midpoint (word + count + 1) =
        midpoint (word + count) + gap (word + count) / 2 + gap (word + count + 1) / 2 := by
      rw [midpoint, midpoint, point_succ]
      ring
    have hgap : gap word ≤ gap (word + count) := gap_mono (by omega)
    have hgap' : gap word ≤ gap (word + count + 1) := gap_mono (by omega)
    -- each step adds half of two gaps, and neither is smaller than the first one
    rw [← add_assoc, hstep]
    push_cast
    linarith

/-- Numbers less than some gaps apart are covered by words at most as many apart. -/
theorem Covers.le_add {count : Nat} (h : Covers word r) (h' : Covers other s)
    (hlt : s < r + count * gap word) : other ≤ word + count := by
  by_contra hgt
  obtain ⟨previous, rfl⟩ : ∃ previous, other = previous + 1 := ⟨other - 1, by omega⟩
  have hmid : midpoint (word + count) ≤ midpoint previous := midpoint_strictMono.monotone (by omega)
  linarith [midpoint_add word count, h'.lower previous rfl, h.upper]

/-- A number is less than `2 ^ 53` gaps of its word. -/
theorem Covers.lt_gaps (h : Covers word r) : r < 2 ^ 53 * gap word := by
  have hsteps : word - binade word * hidden + 1 ≤ 2 ^ 53 := by
    rw [binade, hidden_eq]
    omega
  have hcast : ((word - binade word * hidden : ℕ) : ℚ) + 1 ≤ 2 ^ 53 := by exact_mod_cast hsteps
  have hupper := h.upper
  have hgap := gap_pos word
  rw [midpoint, point] at hupper
  nlinarith

/-- A number is at most half a gap away from the point of its word. -/
theorem Covers.abs_sub_le (h : Covers word r) (hr : 0 ≤ r) : |r - point word| ≤ gap word / 2 := by
  have hupper := h.upper
  rw [midpoint] at hupper
  refine abs_le.2 ⟨?_, by linarith⟩
  cases word with
  | zero =>
    rw [point_zero]
    linarith [gap_pos 0]
  | succ previous =>
    have hlower := h.lower previous rfl
    have hgap : gap previous ≤ gap (previous + 1) := gap_mono (Nat.le_succ _)
    rw [midpoint] at hlower
    linarith [point_succ previous]

/-- Multiples of a power of two with at most fifty-three binary digits are points. -/
theorem exists_point {m : Nat} (hm : m ≤ 2 ^ 53) (e : Nat) :
    ∃ word, point word = m * 2 ^ ((e : ℤ) - 1074) := by
  induction e generalizing m with
  | zero => exact ⟨0 * 2 ^ 52 + m, (point_of_binade hm (.inl rfl)).1⟩
  | succ e ih =>
    by_cases hnormal : 2 ^ 52 ≤ m
    · exact ⟨_, (point_of_binade hm (.inr hnormal)).1⟩
    · -- a small multiple is an even multiple of half the power
      obtain ⟨word, hword⟩ := ih (m := 2 * m) (by omega)
      refine ⟨word, hword.trans ?_⟩
      rw [show ((e + 1 : ℕ) : ℤ) - 1074 = ((e : ℤ) - 1074) + 1 by push_cast; ring,
        zpow_add_one₀ (by norm_num)]
      push_cast
      ring

/-- Every positive number is covered by a word. -/
theorem exists_covers (hr : 0 < r) : ∃ word, Covers word r := by
  have hnum : (0 : ℤ) < r.num := Rat.num_pos.2 hr
  have h := covers_nearestWord (Int.lt_toNat.2 hnum) r.den_pos
  rw [← Int.cast_natCast r.num.toNat, Int.toNat_of_nonneg hnum.le, Rat.num_div_den] at h
  exact ⟨_, h⟩

/-- Below the last half-way point numbers are covered by finite words. -/
theorem Covers.lt_infinityBits (h : Covers word r) (hr : r < midpoint (infinityBits - 1)) :
    word < infinityBits := by
  by_contra hge
  have hinfinity : 0 < infinityBits := by decide
  have hmid : midpoint (infinityBits - 1) ≤ midpoint (word - 1) :=
    midpoint_strictMono.monotone (by omega)
  exact absurd (hmid.trans (h.lower (word - 1) (by omega))) (not_le.2 hr)

/-- Below the last half-way point a rounded number is covered by the word of its double. -/
theorem IsRounded.covers {x : Binary64} (h : IsRounded x r) (hr : r < midpoint (infinityBits - 1)) :
    Covers x.magnitudeBits r := by
  obtain ⟨_, word, hcovers, hword⟩ := h
  rwa [hword, min_eq_left (hcovers.lt_infinityBits hr).le]

/-! ## Relative errors -/

/-- Two numbers differ by at most a fraction of the smaller one. -/
def Close (ε a b : ℚ) : Prop := a ≤ (1 + ε) * b ∧ b ≤ (1 + ε) * a

/-- Greatest relative error of a rounding. -/
def roundoff : ℚ := 1 / 2 ^ 53

namespace Close

variable {ε a b c : ℚ}

/-- Close numbers stay close when both are multiplied. -/
theorem mul_right (h : Close ε a b) (hc : 0 ≤ c) : Close ε (a * c) (b * c) := by
  constructor
  · rw [← mul_assoc]
    exact mul_le_mul_of_nonneg_right h.1 hc
  · rw [← mul_assoc]
    exact mul_le_mul_of_nonneg_right h.2 hc

/-- Close numbers have close inverses. -/
theorem inv (h : Close ε a b) (ha : 0 < a) (hb : 0 < b) : Close ε a⁻¹ b⁻¹ := by
  have hinv : 0 ≤ a⁻¹ * b⁻¹ := (mul_pos (inv_pos.2 ha) (inv_pos.2 hb)).le
  constructor
  · calc a⁻¹ = b * (a⁻¹ * b⁻¹) := by field_simp
      _ ≤ (1 + ε) * a * (a⁻¹ * b⁻¹) := mul_le_mul_of_nonneg_right h.2 hinv
      _ = (1 + ε) * b⁻¹ := by field_simp
  · calc b⁻¹ = a * (a⁻¹ * b⁻¹) := by field_simp
      _ ≤ (1 + ε) * b * (a⁻¹ * b⁻¹) := mul_le_mul_of_nonneg_right h.1 hinv
      _ = (1 + ε) * a⁻¹ := by field_simp

/-- Words move by at most one under a rounding error. -/
theorem words (h : Close roundoff r s) (hr : Covers word r) (hs : Covers other s) :
    other ≤ word + 1 ∧ word ≤ other + 1 := by
  have hgaps := hr.lt_gaps
  have hgaps' := hs.lt_gaps
  obtain ⟨h, h'⟩ := h
  unfold roundoff at h h'
  refine ⟨hr.le_add hs ?_, hs.le_add hr ?_⟩ <;> push_cast <;> linarith

end Close

/-- A normal number is at least as many gaps as the hidden bit is worth. -/
theorem gaps_le_point (hword : 2 ^ 52 ≤ word) : 2 ^ 52 * gap word ≤ point word := by
  have hsteps : 2 ^ 52 ≤ word - binade word * hidden := by
    rw [binade, hidden_eq]
    omega
  rw [point]
  gcongr
  · exact (gap_pos word).le
  · exact_mod_cast hsteps

/-- A rounding in the normal range changes a number by a small part of it. -/
theorem Covers.close (h : Covers word r) (hword : 2 ^ 52 < word) :
    Close roundoff r (point word) := by
  obtain ⟨previous, rfl⟩ : ∃ previous, word = previous + 1 := ⟨word - 1, by omega⟩
  have hnormal := gaps_le_point hword.le
  have hnormal' := gaps_le_point (Nat.le_of_lt_succ hword)
  have hupper := h.upper
  have hlower := h.lower previous rfl
  have hstep := point_succ previous
  have hgap := gap_pos previous
  rw [midpoint] at hupper hlower
  unfold Close roundoff
  constructor <;> linarith

/-- Numbers from one on are in the normal range. -/
theorem Covers.normal (h : Covers word r) (hr : 1 ≤ r) : 2 ^ 52 < word := by
  -- the number one starts a binade
  have hone := (point_of_binade (show 2 ^ 52 ≤ 2 ^ 53 by norm_num)
    (show 1022 = 0 ∨ 2 ^ 52 ≤ 2 ^ 52 by norm_num)).1
  have hvalue : ((2 ^ 52 : ℕ) : ℚ) * 2 ^ (((1022 : ℕ) : ℤ) - 1074) = 1 := by norm_num
  have hle := (hone.trans hvalue ▸ covers_point _).mono h hr
  omega

end Binary64

end PatchCompiler
