import PatchCompiler.Number.Scaled
import PatchCompiler.Proofs.Number.Rounding

/-! # Errors of scaling by powers of ten

A significand is scaled by a power of ten in several roundings: of the significand, of the power, and
of each product or quotient. If the power is a double's, there are three of them, and the last one
moves by at most two words from the word that covers the exact number. Below that the number is
divided twice, and the words are no further apart. No rounding errs if the significand and the power
are small enough to be doubles themselves. -/

namespace PatchCompiler

namespace Binary64

variable {significand word : Nat} {power : ℤ}

/-- A rounded number is covered by a word, which is that of its double if it is finite. -/
theorem IsRounded.exists_word {x : Binary64} {r : ℚ} (h : IsRounded x r) :
    ∃ word, Covers word r ∧
      (word < infinityBits → x = ofMagnitude false word ∧ x.isInfinite = false) := by
  obtain ⟨hsign, word, hcovers, hword⟩ := h
  refine ⟨word, hcovers, fun hfinite => ?_⟩
  rw [min_eq_left hfinite.le] at hword
  obtain ⟨_, hword', hsign'⟩ := ofMagnitude_finite false hfinite
  refine ⟨ext_magnitude (hsign.trans hsign'.symm) (hword.trans hword'.symm), ?_⟩
  rw [isInfinite, hword]
  exact decide_eq_false hfinite.ne

/-! ## Powers of ten -/

/-- Where the ends of the range of doubles lie among the powers of ten. -/
theorem range_bounds : (2 : ℚ) ^ 1023 < 10 ^ maxPower ∧ (10 : ℚ) ^ maxPower + 2 ^ 970 < 2 ^ 1024 ∧
    (2 : ℚ) ^ 1024 < 10 ^ (maxPower + 1) ∧ (10 : ℚ) ^ 17 * 2 ^ 1075 < 10 ^ (2 * maxPower) := by
  have hbounds : 2 ^ 1023 < 10 ^ maxPower ∧ 10 ^ maxPower + 2 ^ 970 < 2 ^ 1024 ∧
      2 ^ 1024 < 10 ^ (maxPower + 1) ∧ 10 ^ 17 * 2 ^ 1075 < 10 ^ (2 * maxPower) := by
    decide +kernel
  exact_mod_cast hbounds

/-- Significands of seventeen digits are below the greatest power of ten. -/
theorem le_pow_maxPower (h : significand ≤ 10 ^ 17) : significand ≤ 10 ^ maxPower :=
  h.trans (Nat.pow_le_pow_right (by decide) (by decide))

/-- The powers of ten that are used are below the last half-way point. -/
theorem pow_lt_midpoint {exponent : Nat} (h : exponent ≤ maxPower) :
    (10 : ℚ) ^ exponent < midpoint (infinityBits - 1) := by
  rw [midpoint_last]
  exact (pow_le_pow_right₀ (by norm_num) h).trans_lt (lt_sub_iff_add_lt.2 range_bounds.2.1)

/-- A power of ten is covered by the word of its double. -/
theorem covers_powerOfTen {exponent : Nat} (h : exponent ≤ maxPower) :
    Covers (powerOfTen exponent).magnitudeBits (10 ^ exponent) :=
  (isRounded_powerOfTen exponent).covers (pow_lt_midpoint h)

/-- The double of a power of ten is close to it. -/
theorem close_powerOfTen {exponent : Nat} (h : exponent ≤ maxPower) :
    Close roundoff (10 ^ exponent) (powerOfTen exponent).magnitude := by
  have hcovers := covers_powerOfTen h
  rw [magnitude_eq]
  exact hcovers.close (hcovers.normal (one_le_pow₀ (by norm_num)))

/-- A natural number is covered by the word of its double. -/
theorem covers_ofNat {n : Nat} (h : n ≤ 10 ^ maxPower) : Covers (ofNat n).magnitudeBits n := by
  refine (isRounded_ofNat n).covers (lt_of_le_of_lt ?_ (pow_lt_midpoint le_rfl))
  exact_mod_cast h

/-- The double of a natural number is close to it. -/
theorem close_ofNat {n : Nat} (hn : 0 < n) (h : n ≤ 10 ^ maxPower) :
    Close roundoff n (ofNat n).magnitude := by
  have hcovers := covers_ofNat h
  rw [magnitude_eq]
  exact hcovers.close (hcovers.normal (by exact_mod_cast hn))

/-- The magnitude of a double other than zero is positive. -/
theorem magnitude_pos {x : Binary64} (hx : x.magnitudeBits ≠ 0) : 0 < x.magnitude := by
  rw [magnitude_eq, ← point_zero]
  exact point_strictMono (Nat.pos_of_ne_zero hx)

/-- The double of a power of ten is not zero. -/
theorem powerOfTen_ne_zero {exponent : Nat} (h : exponent ≤ maxPower) :
    (powerOfTen exponent).magnitudeBits ≠ 0 := by
  have hnormal := (covers_powerOfTen h).normal (one_le_pow₀ (by norm_num))
  omega

/-- The double of a positive number is not zero. -/
theorem ofNat_ne_zero {n : Nat} (hn : 0 < n) (h : n ≤ 10 ^ maxPower) :
    (ofNat n).magnitudeBits ≠ 0 := by
  have hnormal := (covers_ofNat h).normal (by exact_mod_cast hn)
  omega

/-! ## The steps of scaling -/

section

variable {x : Binary64}

/-- A number is multiplied by a power of ten that is not too large. -/
theorem scale_of_nonneg (hpower : power.natAbs ≤ maxPower) (hsign : 0 ≤ power)
    (hfinite : (x.mulMagnitude (powerOfTen power.natAbs)).isInfinite = false) :
    x.scale power = some (x.mulMagnitude (powerOfTen power.natAbs)) := by
  rw [scale, if_pos hpower, if_pos hsign]
  dsimp only
  rw [hfinite, if_neg Bool.false_ne_true]

/-- A number is divided by a power of ten that is not too large. -/
theorem scale_of_neg (hpower : power.natAbs ≤ maxPower) (hsign : power < 0) :
    x.scale power = some (x.divMagnitude (powerOfTen power.natAbs)) := by
  rw [scale, if_pos hpower, if_neg (by omega)]

/-- A number is divided by the greatest power of ten first if the power is too small. -/
theorem scale_of_far (hpower : power < -maxPower) (hx : x.magnitudeBits ≠ 0) :
    x.scale power = (x.divMagnitude (powerOfTen maxPower)).scale (power + maxPower) := by
  have hzero : x.isZero = false := decide_eq_false hx
  rw [scale, if_neg (by omega), hzero, if_neg Bool.false_ne_true, if_neg (by omega)]

end

/-! ## Powers within the range of a double -/

/-- A power that is not negative is a product of tens. -/
theorem zpow_of_nonneg (hsign : 0 ≤ power) : (10 : ℚ) ^ power = 10 ^ power.natAbs := by
  rw [← zpow_natCast, Int.natAbs_of_nonneg hsign]

/-- A negative power is the inverse of a product of tens. -/
theorem zpow_of_neg (hsign : power < 0) : (10 : ℚ) ^ power = (10 ^ power.natAbs)⁻¹ := by
  rw [← zpow_natCast, ← zpow_neg, Int.ofNat_natAbs_of_nonpos hsign.le, neg_neg]

/-- Two rounding errors in a row move words by at most two. -/
theorem Close.words_two {r s t : ℚ} {other : Nat} (h : Close roundoff r s) (h' : Close roundoff s t)
    (hs : 0 < s) (hr : Covers word r) (ht : Covers other t) :
    other ≤ word + 2 ∧ word ≤ other + 2 := by
  obtain ⟨middle, hmiddle⟩ := exists_covers hs
  have hfirst := h.words hr hmiddle
  have hsecond := h'.words hmiddle ht
  omega

/-- Scaling by a power of ten that is a double gives a word at most two away from the exact one. -/
theorem exists_word_of_near (hs : 0 < significand) (hsmall : significand ≤ 10 ^ maxPower)
    (hpower : power.natAbs ≤ maxPower) (hword : Covers word (significand * 10 ^ power)) :
    ∃ result, (result ≤ word + 2 ∧ word ≤ result + 2) ∧
      (result < infinityBits → ofScaled significand power = some (ofMagnitude false result)) := by
  have hdigits := close_ofNat hs hsmall
  have hten := close_powerOfTen hpower
  have hf := magnitude_pos (ofNat_ne_zero hs hsmall)
  have hp := magnitude_pos (powerOfTen_ne_zero hpower)
  have hpow : (0 : ℚ) < 10 ^ power.natAbs := by positivity
  -- the significand and the power move the number by a rounding error each; the third rounding is
  -- the one that gives the result
  obtain hsign | hsign := lt_or_ge power 0
  · obtain ⟨result, hresult, hvalue⟩ :=
      (isRounded_div (ofNat significand) (powerOfTen_ne_zero hpower)).exists_word
    refine ⟨result, ?_, fun hfinite => ?_⟩
    · rw [zpow_of_neg hsign] at hword
      rw [div_eq_mul_inv, mul_comm] at hresult
      refine Close.words_two (hdigits.mul_right (inv_pos.2 hpow).le) ?_
        (mul_pos hf (inv_pos.2 hpow)) hword hresult
      rw [mul_comm]
      exact (hten.inv hpow hp).mul_right hf.le
    · rw [ofScaled, scale_of_neg hpower hsign, (hvalue hfinite).1]
  · obtain ⟨result, hresult, hvalue⟩ :=
      (isRounded_mul (ofNat significand) (powerOfTen power.natAbs)).exists_word
    refine ⟨result, ?_, fun hfinite => ?_⟩
    · rw [zpow_of_nonneg hsign] at hword
      rw [mul_comm] at hresult
      refine Close.words_two (hdigits.mul_right hpow.le) ?_ (mul_pos hf hpow) hword hresult
      rw [mul_comm]
      exact hten.mul_right hf.le
    · rw [ofScaled, scale_of_nonneg hpower hsign (hvalue hfinite).2, (hvalue hfinite).1]

/-! ## Scaling without errors -/

/-- Powers of ten up to the twenty-second are doubles. -/
theorem magnitude_powerOfTen {exponent : Nat} (h : exponent ≤ 22) :
    (powerOfTen exponent).magnitude = 10 ^ exponent := by
  -- a power of ten is a power of five, scaled by a power of two
  have hfive : 5 ^ exponent ≤ 2 ^ 53 :=
    (Nat.pow_le_pow_right (by decide) h).trans (by decide)
  obtain ⟨word, hword⟩ := exists_point hfive (exponent + 1074)
  have hpoint : point word = 10 ^ exponent := by
    rw [hword, show ((exponent + 1074 : ℕ) : ℤ) - 1074 = exponent by push_cast; ring, zpow_natCast,
      Nat.cast_pow, ← mul_pow]
    norm_num
  have hcovers := covers_powerOfTen (h.trans (by decide : 22 ≤ maxPower))
  rw [magnitude_eq, hcovers.unique (hpoint ▸ covers_point word), hpoint]

/-- Naturals up to `2 ^ 53` are doubles. -/
theorem magnitude_ofNat {n : Nat} (h : n ≤ 2 ^ 53) : (ofNat n).magnitude = n := by
  obtain ⟨word, hword⟩ := exists_point h 1074
  have hpoint : point word = n := by
    rw [hword]
    norm_num
  have hcovers := covers_ofNat (le_pow_maxPower (h.trans (by norm_num)))
  rw [magnitude_eq, hcovers.unique (hpoint ▸ covers_point word), hpoint]

/-- Scaling a double by a power of ten that is a double gives the nearest double. -/
theorem ofScaled_of_exact (hs : significand ≤ 2 ^ 53) (hpower : power.natAbs ≤ 22)
    (hword : Covers word (significand * 10 ^ power)) (hfinite : word < infinityBits) :
    ofScaled significand power = some (ofMagnitude false word) := by
  have hpower' : power.natAbs ≤ maxPower := hpower.trans (by decide)
  obtain hsign | hsign := lt_or_ge power 0
  · obtain ⟨result, hresult, hvalue⟩ :=
      (isRounded_div (ofNat significand) (powerOfTen_ne_zero hpower')).exists_word
    rw [magnitude_ofNat hs, magnitude_powerOfTen hpower, div_eq_mul_inv,
      ← zpow_of_neg hsign] at hresult
    obtain rfl := hresult.unique hword
    rw [ofScaled, scale_of_neg hpower' hsign, (hvalue hfinite).1]
  · obtain ⟨result, hresult, hvalue⟩ :=
      (isRounded_mul (ofNat significand) (powerOfTen power.natAbs)).exists_word
    rw [magnitude_ofNat hs, magnitude_powerOfTen hpower, ← zpow_of_nonneg hsign] at hresult
    obtain rfl := hresult.unique hword
    rw [ofScaled, scale_of_nonneg hpower' hsign (hvalue hfinite).2, (hvalue hfinite).1]

/-! ## Powers below the range of a double -/

/-- The greatest power of ten is rounded up, by less than a tenth of the greatest error. -/
theorem greatest_power_bounds : (10 : ℚ) ^ maxPower ≤ (powerOfTen maxPower).magnitude ∧
    (powerOfTen maxPower).magnitude ≤ (1 + 99 / 1000 * roundoff) * 10 ^ maxPower := by
  have hratio : 10 ^ maxPower ≤ (powerOfTen maxPower).ratio.1 ∧
      1000 * 2 ^ 53 * (powerOfTen maxPower).ratio.1 ≤ (1000 * 2 ^ 53 + 99) * 10 ^ maxPower ∧
      (powerOfTen maxPower).ratio.2 = 1 := by decide +kernel
  obtain ⟨hlower, hupper, hone⟩ := hratio
  have hlower' : (10 : ℚ) ^ maxPower ≤ (powerOfTen maxPower).ratio.1 := by exact_mod_cast hlower
  have hupper' : (1000 * 2 ^ 53 * (powerOfTen maxPower).ratio.1 : ℚ) ≤
      (1000 * 2 ^ 53 + 99) * 10 ^ maxPower := by exact_mod_cast hupper
  rw [magnitude_ratio, hone, Nat.cast_one, div_one]
  refine ⟨hlower', ?_⟩
  generalize (10 : ℚ) ^ maxPower = T at *
  unfold roundoff
  linarith

/-- The significand, divided by the greatest power of ten. -/
def quotient (significand : Nat) : Binary64 :=
  (ofNat significand).divMagnitude (powerOfTen maxPower)

/-- The relative error of a rounding is positive. -/
theorem roundoff_pos : 0 < roundoff := by
  unfold roundoff
  norm_num

/-- The quotient by the greatest power of ten is covered by the word of its double. -/
theorem covers_quotient (hs : 0 < significand) (hsmall : significand ≤ 10 ^ 17) :
    Covers (quotient significand).magnitudeBits
      ((ofNat significand).magnitude / (powerOfTen maxPower).magnitude) := by
  refine (isRounded_div _ (powerOfTen_ne_zero le_rfl)).covers ?_
  have hfits := le_pow_maxPower hsmall
  have hdigits := (close_ofNat hs hfits).2
  have hcast : (significand : ℚ) ≤ 10 ^ 17 := by exact_mod_cast hsmall
  have hone : 1 ≤ (powerOfTen maxPower).magnitude :=
    (one_le_pow₀ (by norm_num)).trans greatest_power_bounds.1
  calc (ofNat significand).magnitude / (powerOfTen maxPower).magnitude
      ≤ (ofNat significand).magnitude := (div_le_iff₀ (one_pos.trans_le hone)).2
        (le_mul_of_one_le_right (magnitude_pos (ofNat_ne_zero hs hfits)).le hone)
    _ ≤ 10 ^ 18 := by
      unfold roundoff at hdigits
      linarith
    _ < midpoint (infinityBits - 1) := pow_lt_midpoint (by decide)

/-- The quotient is off by the errors of significand and power and by half a gap. -/
theorem quotient_bounds (hs : 0 < significand) (hsmall : significand ≤ 10 ^ 17) :
    (quotient significand).magnitude ≤ (1 + roundoff) * (significand / 10 ^ maxPower) +
        gap (quotient significand).magnitudeBits / 2 ∧
      (significand / 10 ^ maxPower : ℚ) ≤ (1 + roundoff) * (1 + 99 / 1000 * roundoff) *
        ((quotient significand).magnitude + gap (quotient significand).magnitudeBits / 2) := by
  have hfits := le_pow_maxPower hsmall
  have hf := magnitude_pos (ofNat_ne_zero hs hfits)
  have hdigits := close_ofNat hs hfits
  obtain ⟨hlower, hupper⟩ := greatest_power_bounds
  have hcovers := covers_quotient hs hsmall
  have hu := roundoff_pos
  have hT : (0 : ℚ) < 10 ^ maxPower := by positivity
  generalize (10 : ℚ) ^ maxPower = T at *
  generalize (powerOfTen maxPower).magnitude = p at *
  have hp : 0 < p := hT.trans_le hlower
  obtain ⟨hbelow, habove⟩ := abs_le.1 (hcovers.abs_sub_le (div_pos hf hp).le)
  rw [← magnitude_eq] at hbelow habove
  constructor
  · calc (quotient significand).magnitude
        ≤ (ofNat significand).magnitude / p + gap (quotient significand).magnitudeBits / 2 := by
          linarith
      _ ≤ (1 + roundoff) * significand / T + gap (quotient significand).magnitudeBits / 2 := by
          gcongr
          exact hdigits.2
      _ = _ := by rw [mul_div_assoc]
  · have hpower : (ofNat significand).magnitude / T ≤
        (1 + 99 / 1000 * roundoff) * ((ofNat significand).magnitude / p) := by
      rw [div_le_iff₀ hT, mul_div_assoc', div_mul_eq_mul_div, le_div_iff₀ hp]
      calc (ofNat significand).magnitude * p
          ≤ (ofNat significand).magnitude * ((1 + 99 / 1000 * roundoff) * T) := by gcongr
        _ = _ := by ring
    calc (significand / T : ℚ) ≤ (1 + roundoff) * (ofNat significand).magnitude / T := by
          gcongr
          exact hdigits.1
      _ = (1 + roundoff) * ((ofNat significand).magnitude / T) := mul_div_assoc _ _ _
      _ ≤ (1 + roundoff) * ((1 + 99 / 1000 * roundoff) *
          ((ofNat significand).magnitude / p)) := by gcongr
      _ ≤ (1 + roundoff) * ((1 + 99 / 1000 * roundoff) * ((quotient significand).magnitude +
          gap (quotient significand).magnitudeBits / 2)) := by
          gcongr
          linarith
      _ = _ := by ring

/-- A number that has `2 ^ 52` of the gaps of a word after scaling by a power of two is covered by a
word whose gap is no smaller than these after scaling. -/
theorem Covers.gap_le {first k : Nat} {r : ℚ} (h : Covers word r)
    (hr : binade first ≤ k ∨ 2 ^ 52 * gap first ≤ 2 ^ k * r) : gap first ≤ 2 ^ k * gap word := by
  have hpow : (0 : ℚ) < 2 ^ k := by positivity
  obtain hle | hlt := le_or_gt (binade first) k
  · calc gap first ≤ 2 ^ k * gap 0 := by
          rw [gap, gap, ← zpow_natCast, ← zpow_add₀ (by norm_num)]
          exact zpow_le_zpow_right₀ (by norm_num) (by omega)
      _ ≤ 2 ^ k * gap word := by
          gcongr
          exact gap_mono (Nat.zero_le word)
  · -- the word that starts the binade after scaling is below the covering word
    obtain ⟨rest, hrest⟩ := Nat.exists_eq_add_of_lt hlt
    obtain ⟨hpoint, hbinade⟩ := point_of_binade (show 2 ^ 52 ≤ 2 ^ 53 by norm_num)
      (.inr le_rfl : rest + 1 = 0 ∨ 2 ^ 52 ≤ 2 ^ 52)
    have hgap : gap first = 2 ^ k * 2 ^ (((rest + 1 : ℕ) : ℤ) - 1074) := by
      rw [gap, ← zpow_natCast, ← zpow_add₀ (by norm_num)]
      congr 1
      omega
    have hr := hr.resolve_left (by omega)
    have hstart : point ((rest + 1) * 2 ^ 52 + 2 ^ 52) ≤ r := by
      rw [hpoint]
      rw [hgap, mul_left_comm] at hr
      exact_mod_cast le_of_mul_le_mul_left hr hpow
    have hword := (covers_point _).mono h hstart
    rw [hgap]
    gcongr
    exact (zpow_le_zpow_right₀ (by norm_num) (by omega)).trans (gap_mono hword)

/-- A power of two exceeds each of these powers of ten by a factor between `1.024` and `1.8015`. -/
theorem exists_power_of_two {j : Nat} (hj : 1 ≤ j) (hj' : j ≤ 16) :
    ∃ k, 128 * 10 ^ j ≤ 125 * 2 ^ k ∧ 10000 * 2 ^ k ≤ 18015 * 10 ^ j := by
  have hall : ∀ j < 17, 1 ≤ j → ∃ k < 55, 128 * 10 ^ j ≤ 125 * 2 ^ k ∧
      10000 * 2 ^ k ≤ 18015 * 10 ^ j := by decide
  obtain ⟨k, _, hk⟩ := hall j (by omega) hj
  exact ⟨k, hk⟩

/-- Dividing by a power of ten shrinks a gap to less than two gaps of what is left. -/
theorem Covers.gap_div_le {first j : Nat} {r : ℚ} (hj : 1 ≤ j) (hj' : j ≤ 16) (hr : 0 ≤ r)
    (h : Covers word (r / 10 ^ j)) (hfirst : first < 2 ^ 52 ∨ 2 ^ 52 * gap first ≤ 128 / 125 * r) :
    gap first / 10 ^ j ≤ 18015 / 10000 * gap word := by
  obtain ⟨k, hlower, hupper⟩ := exists_power_of_two hj hj'
  have hlower' : (128 * 10 ^ j : ℚ) ≤ 125 * 2 ^ k := by exact_mod_cast hlower
  have hupper' : (10000 * 2 ^ k : ℚ) ≤ 18015 * 10 ^ j := by exact_mod_cast hupper
  have hten : (0 : ℚ) < 10 ^ j := by positivity
  have hgap : gap first ≤ 2 ^ k * gap word := by
    refine h.gap_le (hfirst.imp (fun hlt => ?_) fun hle => hle.trans ?_)
    · rw [binade, hidden_eq]
      omega
    · calc 128 / 125 * r = 128 / 125 * 10 ^ j * (r / 10 ^ j) := by field_simp
        _ ≤ 2 ^ k * (r / 10 ^ j) :=
          mul_le_mul_of_nonneg_right (by linarith) (div_nonneg hr hten.le)
  rw [div_le_iff₀ hten]
  calc gap first ≤ 2 ^ k * gap word := hgap
    _ ≤ 18015 / 10000 * 10 ^ j * gap word := by
      have := gap_pos word
      gcongr
      linarith
    _ = _ := by ring

/-- A quotient is at most subnormal or has `2 ^ 52` of its gaps. -/
theorem quotient_gaps (significand : Nat) : (quotient significand).magnitudeBits < 2 ^ 52 ∨
    2 ^ 52 * gap (quotient significand).magnitudeBits ≤ (quotient significand).magnitude :=
  (lt_or_ge _ _).imp_right fun hle => magnitude_eq _ ▸ gaps_le_point hle

/-- The bounds of the quotient after a further division. -/
theorem quotient_div_bounds (hs : 0 < significand) (hsmall : significand ≤ 10 ^ 17) {t : ℚ}
    (ht : 0 < t) :
    (quotient significand).magnitude / t ≤ (1 + roundoff) * (significand / 10 ^ maxPower / t) +
        gap (quotient significand).magnitudeBits / t / 2 ∧
      (significand / 10 ^ maxPower / t : ℚ) ≤ (1 + roundoff) * (1 + 99 / 1000 * roundoff) *
        ((quotient significand).magnitude / t +
          gap (quotient significand).magnitudeBits / t / 2) := by
  obtain ⟨habove, hbelow⟩ := quotient_bounds hs hsmall
  refine ⟨(div_le_div_of_nonneg_right habove ht.le).trans_eq ?_,
    (div_le_div_of_nonneg_right hbelow ht.le).trans_eq ?_⟩ <;> ring

/-- Dividing the quotient by a power of ten that is a double moves words by at most two. -/
theorem words_of_quotient {j result : Nat} (hs : 0 < significand) (hsmall : significand ≤ 10 ^ 17)
    (hj : 1 ≤ j) (hj' : j ≤ 16) (hword : Covers word (significand / 10 ^ maxPower / 10 ^ j))
    (hresult : Covers result ((quotient significand).magnitude / 10 ^ j)) :
    result ≤ word + 2 ∧ word ≤ result + 2 := by
  have hten : (0 : ℚ) < 10 ^ j := by positivity
  obtain ⟨habove, hbelow⟩ := quotient_div_bounds hs hsmall hten
  have hquotient := (quotient_bounds hs hsmall).1
  have hgaps := quotient_gaps significand
  have hpos : (0 : ℚ) ≤ significand / 10 ^ maxPower :=
    div_nonneg (Nat.cast_nonneg _) (pow_nonneg (by norm_num) _)
  have hgap := gap_pos (quotient significand).magnitudeBits
  have hy : 0 ≤ (quotient significand).magnitude := magnitude_eq _ ▸ point_nonneg _
  generalize (significand / 10 ^ maxPower : ℚ) = exact at *
  generalize (quotient significand).magnitude = y at *
  unfold roundoff at habove hbelow hquotient
  -- what the quotient lost is less than a gap of either word
  have hwide := hword.gap_div_le hj hj' hpos (hgaps.imp_right fun hle => by linarith)
  have hwide' := hresult.gap_div_le hj hj' hy (hgaps.imp_right fun hle => by linarith)
  have hlt := hword.lt_gaps
  have hlt' := hresult.lt_gaps
  refine ⟨hword.le_add hresult ?_, hresult.le_add hword ?_⟩ <;> push_cast <;> linarith

/-- A gap of the quotient is a small part of the number divided. -/
theorem quotient_gap_le (hs : 0 < significand) (hsmall : significand ≤ 10 ^ 17) :
    2 ^ 50 * gap (quotient significand).magnitudeBits ≤ significand / 10 ^ maxPower := by
  have hquotient := (quotient_bounds hs hsmall).1
  have hgap := gap_pos (quotient significand).magnitudeBits
  obtain hlt | hle := quotient_gaps significand
  · have hbinade : binade (quotient significand).magnitudeBits = 0 := by
      rw [binade, hidden_eq]
      omega
    have hone : (1 : ℚ) ≤ significand := by exact_mod_cast hs
    have hpower : (10 : ℚ) ^ maxPower ≤ 2 ^ 1024 :=
      (le_add_of_nonneg_right (by positivity)).trans range_bounds.2.1.le
    rw [le_div_iff₀ (by positivity), gap, hbinade]
    calc (2 ^ 50 * 2 ^ (((0 : ℕ) : ℤ) - 1074) * 10 ^ maxPower : ℚ)
        ≤ 2 ^ 50 * 2 ^ (((0 : ℕ) : ℤ) - 1074) * 2 ^ 1024 := by gcongr
      _ = 1 := by
        rw [← zpow_natCast, ← zpow_natCast, ← zpow_add₀ (by norm_num), ← zpow_add₀ (by norm_num)]
        norm_num
      _ ≤ significand := hone
  · unfold roundoff at hquotient
    linarith

/-- Among the least numbers even a rounded power of ten moves words by at most two. -/
theorem words_of_least {j result : Nat} (hs : 0 < significand) (hsmall : significand ≤ 10 ^ 17)
    (hj : j ≤ maxPower) (hword : Covers word (significand / 10 ^ maxPower / 10 ^ j))
    (hleast : (significand / 10 ^ maxPower / 10 ^ j : ℚ) < 2 ^ 51 * gap 0)
    (hresult : Covers result ((quotient significand).magnitude / (powerOfTen j).magnitude)) :
    result ≤ word + 2 ∧ word ≤ result + 2 := by
  have hten : (0 : ℚ) < 10 ^ j := by positivity
  obtain ⟨habove, hbelow⟩ := quotient_div_bounds hs hsmall hten
  -- all four errors are relative ones here, and the number has few gaps to begin with
  have hpart := div_le_div_of_nonneg_right (quotient_gap_le hs hsmall) hten.le
  have hpower : Close roundoff ((quotient significand).magnitude / 10 ^ j)
      ((quotient significand).magnitude / (powerOfTen j).magnitude) := by
    rw [div_eq_inv_mul, div_eq_inv_mul]
    exact ((close_powerOfTen hj).inv hten (magnitude_pos (powerOfTen_ne_zero hj))).mul_right
      (magnitude_eq _ ▸ point_nonneg _)
  obtain ⟨hpower, hpower'⟩ := hpower
  have hgap := gap_mono (Nat.zero_le word)
  have hgap' := gap_mono (Nat.zero_le result)
  rw [mul_div_assoc] at hpart
  unfold roundoff at habove hbelow hpower hpower'
  generalize gap (quotient significand).magnitudeBits / 10 ^ j = g at *
  refine ⟨hword.le_add hresult ?_, hresult.le_add hword ?_⟩ <;> push_cast <;> linarith

/-- A number above the least ones has been divided by a power of ten that is a double. -/
theorem power_le_of_normal {j : Nat} (hsmall : significand ≤ 10 ^ 17)
    (hleast : (2 ^ 51 * gap 0 : ℚ) ≤ significand / 10 ^ maxPower / 10 ^ j) : j ≤ 16 := by
  have hcast : (significand : ℚ) ≤ 10 ^ 17 := by exact_mod_cast hsmall
  have hgap : (2 ^ 51 * gap 0 : ℚ) * 2 ^ 1023 = 1 := by
    rw [gap, show binade 0 = 0 by decide, ← zpow_natCast, ← zpow_natCast,
      ← zpow_add₀ (by norm_num), ← zpow_add₀ (by norm_num)]
    norm_num
  have hten := range_bounds.1
  have hgap' : 0 < (2 ^ 51 * gap 0 : ℚ) := mul_pos (by norm_num) (gap_pos 0)
  rw [le_div_iff₀ (by positivity), le_div_iff₀ (by positivity)] at hleast
  have hlt : (10 : ℚ) ^ j < 10 ^ 17 := by
    calc (10 : ℚ) ^ j = 2 ^ 51 * gap 0 * 10 ^ j * 2 ^ 1023 := by rw [mul_right_comm, hgap, one_mul]
      _ < 2 ^ 51 * gap 0 * 10 ^ j * 10 ^ maxPower := by gcongr
      _ ≤ 10 ^ 17 := hleast.trans hcast
  exact Nat.le_of_lt_succ ((pow_lt_pow_iff_right₀ (by norm_num)).1 hlt)

/-- Scaling by two powers of ten gives a word at most two away from the exact one. -/
theorem exists_word_of_far (hs : 0 < significand) (hsmall : significand ≤ 10 ^ 17)
    (hpower : power < -maxPower) (hpower' : -(2 * maxPower) ≤ power)
    (hword : Covers word (significand * 10 ^ power)) :
    ∃ result, (result ≤ word + 2 ∧ word ≤ result + 2) ∧
      (result < infinityBits → ofScaled significand power = some (ofMagnitude false result)) := by
  obtain ⟨j, hj⟩ : ∃ j : Nat, power = -maxPower - j := ⟨(-maxPower - power).toNat, by omega⟩
  have hrest : power + maxPower = -j := by omega
  have hdouble : j ≤ maxPower := by omega
  have hexact : (significand * 10 ^ power : ℚ) = significand / 10 ^ maxPower / 10 ^ j := by
    rw [hj, sub_eq_add_neg, zpow_add₀ (by norm_num), zpow_neg, zpow_neg, zpow_natCast, zpow_natCast,
      ← mul_assoc, ← div_eq_mul_inv, ← div_eq_mul_inv]
  rw [hexact] at hword
  obtain ⟨result, hresult, hvalue⟩ :=
    (isRounded_div (quotient significand) (powerOfTen_ne_zero hdouble)).exists_word
  refine ⟨result, ?_, fun hfinite => ?_⟩
  · -- the second power of ten has an error of its own only where the number is small
    obtain hlt | hle := lt_or_ge (significand / 10 ^ maxPower / 10 ^ j : ℚ) (2 ^ 51 * gap 0)
    · exact words_of_least hs hsmall hdouble hword hlt hresult
    · have hj' := power_le_of_normal hsmall hle
      rw [magnitude_powerOfTen (hj'.trans (by decide))] at hresult
      exact words_of_quotient hs hsmall (by omega) hj' hword hresult
  · have hfits := le_pow_maxPower hsmall
    rw [ofScaled, scale_of_far hpower (ofNat_ne_zero hs hfits), hrest,
      scale_of_neg (by omega) (by omega), Int.natAbs_neg, Int.natAbs_natCast]
    exact congrArg some (hvalue hfinite).1

/-! ## All powers -/

/-- The power of a number that neither vanishes nor overflows. -/
theorem power_bounds (hs : 0 < significand) (hsmall : significand ≤ 10 ^ 17) (hne : word ≠ 0)
    (hfinite : word < infinityBits) (hword : Covers word (significand * 10 ^ power)) :
    -(2 * maxPower) ≤ power ∧ power ≤ maxPower := by
  have hone : (1 : ℚ) ≤ significand := by exact_mod_cast hs
  have hcast : (significand : ℚ) ≤ 10 ^ 17 := by exact_mod_cast hsmall
  constructor <;> by_contra! hpower
  · -- under this bound even the greatest significand gives less than half of the least number
    obtain ⟨previous, rfl⟩ := Nat.exists_eq_succ_of_ne_zero hne
    have hleast : midpoint 0 ≤ significand * 10 ^ power :=
      (midpoint_strictMono.monotone (Nat.zero_le previous)).trans (hword.lower previous rfl)
    have hpow : (10 : ℚ) ^ power ≤ (10 ^ (2 * maxPower))⁻¹ := by
      rw [← zpow_natCast, ← zpow_neg]
      exact zpow_le_zpow_right₀ (by norm_num) (by omega)
    have hhalf : midpoint 0 = (2 ^ 1075)⁻¹ := by
      rw [midpoint, point_zero, zero_add, gap, show binade 0 = 0 by decide, div_eq_mul_inv,
        ← zpow_neg_one, ← zpow_add₀ (by norm_num), ← zpow_natCast, ← zpow_neg]
      norm_num
    have hvanish : 10 ^ 17 * (10 ^ (2 * maxPower))⁻¹ < midpoint 0 := by
      rw [hhalf, ← div_eq_mul_inv, div_lt_iff₀ (by positivity), inv_mul_eq_div,
        lt_div_iff₀ (by positivity)]
      exact range_bounds.2.2.2
    exact absurd (hleast.trans (mul_le_mul hcast hpow (by positivity) (by positivity)))
      (not_le.2 hvanish)
  · -- over this bound even a significand of one gives more than the greatest number
    have hgreatest : (significand * 10 ^ power : ℚ) ≤ midpoint (infinityBits - 1) :=
      hword.upper.trans (midpoint_strictMono.monotone (Nat.le_sub_one_of_lt hfinite))
    have hpow : (10 : ℚ) ^ (maxPower + 1) ≤ 10 ^ power := by
      rw [← zpow_natCast]
      exact zpow_le_zpow_right₀ (by norm_num) (by omega)
    have hoverflow : midpoint (infinityBits - 1) < (10 : ℚ) ^ (maxPower + 1) := by
      rw [midpoint_last]
      exact (sub_le_self _ (by positivity)).trans_lt range_bounds.2.2.1
    exact absurd ((le_mul_of_one_le_left (by positivity) hone).trans hgreatest)
      (not_le.2 (hoverflow.trans_le hpow))

/-- Scaling a significand of at most seventeen digits gives a word at most two away from the exact
one, unless that is one of the two greatest. -/
theorem exists_word (hs : 0 < significand) (hsmall : significand ≤ 10 ^ 17) (hne : word ≠ 0)
    (hfinite : word + 2 < infinityBits) (hword : Covers word (significand * 10 ^ power)) :
    ∃ result, (result ≤ word + 2 ∧ word ≤ result + 2) ∧
      ofScaled significand power = some (ofMagnitude false result) := by
  obtain ⟨hlower, hupper⟩ := power_bounds hs hsmall hne (by omega) hword
  have hscaled : ∃ result, (result ≤ word + 2 ∧ word ≤ result + 2) ∧
      (result < infinityBits → ofScaled significand power = some (ofMagnitude false result)) := by
    obtain hfar | hnear := lt_or_ge power (-maxPower)
    · exact exists_word_of_far hs hsmall hfar hlower hword
    · exact exists_word_of_near hs (le_pow_maxPower hsmall) (by omega) hword
  obtain ⟨result, hresult, hvalue⟩ := hscaled
  exact ⟨result, hresult, hvalue (by omega)⟩

end Binary64

end PatchCompiler
