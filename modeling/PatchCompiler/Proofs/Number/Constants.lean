import PatchCompiler.Number.Layout
import PatchCompiler.Number.Numeral
import PatchCompiler.Proofs.Number.Shortest
import PatchCompiler.Wasm.Instr

/-! # Texts of floating-point constants

A constant is written as a plain numeral: a sign, digits, and digits behind a point. The numeral of a
finite double denotes it, that is, rounds to it and has its sign, and it has no more significant
digits than any other plain numeral that does (`Code.render_float_exact`). A numeral denotes one double
only, so different doubles have different texts. -/

namespace PatchCompiler

namespace Numeral

/-! ## Runs of digits -/

/-- The number of digits is the one that the standard library reads. -/
theorem value_eq (digits : List Char) : value digits = Nat.ofDigitChars 10 digits 0 :=
  Nat.ofDigitChars_eq_foldl.symm

/-- Digits in front count as many powers of ten as digits follow. -/
theorem value_append (first second : List Char) :
    value (first ++ second) = value first * 10 ^ second.length + value second := by
  rw [value_eq, Nat.ofDigitChars_append, Nat.ofDigitChars_eq_ofDigitChars_zero, value_eq, value_eq,
    mul_comm]

/-- Zeros are worth nothing. -/
theorem value_zeros (count : Nat) : value (List.replicate count '0') = 0 := by
  rw [value_eq, Nat.ofDigitChars_replicate_zero, mul_zero]

/-- A natural number is the number of its digits. -/
theorem value_toDigits (n : Nat) : value (Nat.toDigits 10 n) = n := by
  rw [value_eq, Nat.ofDigitChars_ten_toDigits]

/-- A digit is less than ten. -/
theorem digitValue_lt {c : Char} (h : c.isDigit = true) : digitValue c < 10 := by
  have hrange : 48 ≤ c.toNat ∧ c.toNat ≤ 57 := Char.isDigit_iff_toNat.1 h
  show c.toNat - 48 < 10
  omega

/-- A number is less than the power of ten with as many zeros as it has digits. -/
theorem value_lt {digits : List Char} (h : ∀ c ∈ digits, c.isDigit = true) :
    value digits < 10 ^ digits.length := by
  induction digits with
  | nil => decide
  | cons c rest ih =>
    have hdigit : value [c] ≤ 9 := by
      show 10 * 0 + digitValue c ≤ 9
      have := digitValue_lt (h c List.mem_cons_self)
      omega
    have hrest := ih fun d hd => h d (List.mem_cons_of_mem _ hd)
    rw [← List.singleton_append, value_append, List.length_append, pow_add, List.length_singleton]
    calc value [c] * 10 ^ rest.length + value rest
        ≤ 9 * 10 ^ rest.length + value rest := by gcongr
      _ < 10 ^ 1 * 10 ^ rest.length := by omega

/-- The zeros in front of digits are a run of zeros. -/
theorem takeWhile_zeros (digits : List Char) : digits.takeWhile (· = '0') =
    List.replicate (digits.takeWhile (· = '0')).length '0' :=
  List.eq_replicate_iff.2 ⟨rfl, fun c hc => by
    simpa using List.all_eq_true.1 (List.all_takeWhile (p := (· = '0')) (l := digits)) c hc⟩

/-- Zeros in front do not count. -/
theorem value_dropWhile (digits : List Char) :
    value (digits.dropWhile (· = '0')) = value digits := by
  conv_rhs => rw [← List.takeWhile_append_dropWhile (p := (· = '0')) (l := digits)]
  rw [value_append, takeWhile_zeros, value_zeros, zero_mul, zero_add]

/-- Digits without the zeros at their end. -/
def withoutZeros (digits : List Char) : List Char := (digits.reverse.dropWhile (· = '0')).reverse

/-- Digits are what is left without the zeros at the end, and these zeros. -/
theorem exists_append_zeros (digits : List Char) :
    ∃ count, digits = withoutZeros digits ++ List.replicate count '0' := by
  refine ⟨(digits.reverse.takeWhile (· = '0')).length, ?_⟩
  rw [withoutZeros, ← List.reverse_replicate, ← takeWhile_zeros, ← List.reverse_append,
    List.takeWhile_append_dropWhile, List.reverse_reverse]

/-! ## Plain numerals -/

/-- A run of at least one digit. -/
@[ext] structure Digits where
  /-- The digits. -/
  run : List Char
  /-- There is a digit. -/
  ne_nil : run ≠ []
  /-- There are only digits. -/
  isDigit : ∀ c ∈ run, c.isDigit = true

/-- A zero that stands alone. -/
def Digits.zero : Digits where
  run := ['0']
  ne_nil := List.cons_ne_nil _ _
  isDigit c hc := by
    rw [List.mem_singleton.1 hc]
    rfl

/-- A numeral without an exponent: digits, and more digits behind a point if there is one. -/
structure Plain where
  /-- Whether a minus sign stands in front. -/
  negative : Bool
  /-- The digits in front of the point. -/
  whole : Digits
  /-- The digits behind the point. -/
  fraction : Option Digits

namespace Plain

/-- The digits behind the point; none if there is no point. -/
def places (n : Plain) : List Char := (n.fraction.map Digits.run).getD []

/-- The characters of a numeral. -/
def characters (n : Plain) : List Char :=
  (if n.negative then ['-'] else []) ++
    (n.whole.run ++ if n.fraction.isSome then '.' :: n.places else [])

/-- The text of a numeral. -/
def text (n : Plain) : String := String.ofList n.characters

/-- The number of a numeral without its sign. -/
def magnitude (n : Plain) : ℚ := value (n.whole.run ++ n.places) / 10 ^ n.places.length

/-- The number of a numeral. -/
def value (n : Plain) : ℚ := if n.negative then -n.magnitude else n.magnitude

/-- The number of significant digits. Zeros in front do not count, and zeros at the end count only
behind a point. -/
def significant (n : Plain) : Nat :=
  let digits := (n.whole.run ++ n.places).dropWhile (· = '0')
  if n.fraction.isSome then digits.length else (withoutZeros digits).length

section

variable (negative : Bool) (whole fraction : Digits)

/-- A numeral without a point is its sign and its digits. -/
theorem characters_integer : (Plain.mk negative whole none).characters =
    (if negative then ['-'] else []) ++ whole.run := by
  simp [characters]

/-- A numeral with a point is its sign, its digits and its places. -/
theorem characters_fraction : (Plain.mk negative whole (some fraction)).characters =
    (if negative then ['-'] else []) ++ (whole.run ++ '.' :: fraction.run) := rfl

/-- The magnitude of a numeral without a point is that of its digits. -/
theorem magnitude_integer :
    (Plain.mk negative whole none).magnitude = Numeral.value whole.run := by
  simp [magnitude, places]

/-- Zeros at both ends of an integer are not significant. -/
theorem significant_integer : (Plain.mk negative whole none).significant =
    (withoutZeros (whole.run.dropWhile (· = '0'))).length := by
  simp [significant, places]

/-- Zeros in front of a numeral with a point are not significant. -/
theorem significant_fraction : (Plain.mk negative whole (some fraction)).significant =
    ((whole.run ++ fraction.run).dropWhile (· = '0')).length := rfl

end

/-- A numeral denotes a double if it rounds to it and has its sign. -/
def Denotes (n : Plain) (x : Binary64) : Prop :=
  n.negative = x.isNegative ∧ Binary64.RoundsTo n.value x

/-- A numeral holds digits in front of the point and behind it. -/
theorem isDigit_of_mem (n : Plain) {c : Char} (hc : c ∈ n.whole.run ++ n.places) :
    c.isDigit = true := by
  obtain hc | hc := List.mem_append.1 hc
  · exact n.whole.isDigit c hc
  · unfold places at hc
    cases hfraction : n.fraction with
    | none =>
      rw [hfraction] at hc
      exact absurd hc List.not_mem_nil
    | some digits =>
      rw [hfraction] at hc
      exact digits.isDigit c hc

/-- No magnitude is negative. -/
theorem magnitude_nonneg (n : Plain) : 0 ≤ n.magnitude := by
  rw [magnitude]
  positivity

/-- The magnitude of a numeral is its distance from zero. -/
theorem abs_value (n : Plain) : |n.value| = n.magnitude := by
  rw [value]
  split
  · rw [abs_neg, abs_of_nonneg n.magnitude_nonneg]
  · rw [abs_of_nonneg n.magnitude_nonneg]

/-- A numeral denotes the double of its sign whose word covers its number. -/
theorem denotes_iff {n : Plain} {x : Binary64} (hx : x.isFinite = true) :
    n.Denotes x ↔ n.negative = x.isNegative ∧ Binary64.Covers x.magnitudeBits n.magnitude := by
  rw [Denotes]
  refine and_congr_right fun hsign => ?_
  have hnonneg := n.magnitude_nonneg
  rw [Binary64.roundsTo_iff hx, abs_value]
  · intro hneg
    rw [value, hsign, if_pos hneg]
    linarith
  · intro hpos
    rwa [value, hsign, if_neg (by simp [hpos])]

/-- A numeral denotes one double only. -/
theorem Denotes.unique {n : Plain} {x y : Binary64} (hx : n.Denotes x) (hy : n.Denotes y) :
    x = y := by
  have hcovers := ((denotes_iff hx.2.finite).1 hx).2
  have hcovers' := ((denotes_iff hy.2.finite).1 hy).2
  exact Binary64.ext_magnitude (hx.1.symm.trans hy.1) (hcovers.unique hcovers')

/-- A numeral is a decimal that has as many digits as the numeral has significant ones. -/
theorem exists_decimal (n : Plain) : ∃ (digits : ℕ) (exponent : ℤ),
    n.magnitude = digits * 10 ^ exponent ∧
      (digits ≠ 0 → Binary64.digitCount digits ≤ n.significant) := by
  -- digits that spell a number are at least as many as the number has
  have hcount : ∀ run : List Char, (∀ c ∈ run, c.isDigit = true) → Numeral.value run ≠ 0 →
      Binary64.digitCount (Numeral.value run) ≤ run.length := by
    intro run hrun hne
    refine Binary64.digitCount_le (List.length_pos_iff.2 fun hnil => hne ?_) (value_lt hrun)
    rw [hnil]
    rfl
  have hdigits : ∀ c ∈ (n.whole.run ++ n.places).dropWhile (· = '0'), c.isDigit = true :=
    fun c hc => n.isDigit_of_mem ((List.dropWhile_sublist _).subset hc)
  have hvalue := value_dropWhile (n.whole.run ++ n.places)
  generalize hrun : (n.whole.run ++ n.places).dropWhile (· = '0') = run at hdigits hvalue
  cases hpoint : n.fraction.isSome with
  | true =>
    refine ⟨Numeral.value run, -(n.places.length : ℤ), ?_, ?_⟩
    · rw [magnitude, ← hvalue, zpow_neg, zpow_natCast, div_eq_mul_inv]
    · rw [significant, hrun, if_pos hpoint]
      exact hcount run hdigits
  | false =>
    obtain ⟨count, hzeros⟩ := exists_append_zeros run
    have hplaces : n.places = [] := by
      rw [places, Option.isSome_eq_false_iff.1 hpoint |> Option.isNone_iff_eq_none.1]
      rfl
    -- without a point, the zeros at the end go to the exponent
    refine ⟨Numeral.value (withoutZeros run), count, ?_, ?_⟩
    · rw [magnitude, ← hvalue, hplaces, List.length_nil, pow_zero, div_one]
      conv_lhs => rw [hzeros]
      rw [value_append, value_zeros, List.length_replicate, add_zero, zpow_natCast]
      push_cast
      rfl
    · rw [significant, hrun, if_neg (by simp [hpoint])]
      exact hcount _ fun c hc => hdigits c (hzeros ▸ List.mem_append_left _ hc)

/-- The digits in front of the point are all that stand there. -/
theorem takeWhile_body (n : Plain) :
    (n.whole.run ++ if n.fraction.isSome then '.' :: n.places else []).takeWhile Char.isDigit =
      n.whole.run := by
  rw [List.takeWhile_append_of_pos n.whole.isDigit]
  split
  · rw [List.takeWhile_cons_of_neg (by decide), List.append_nil]
  · rw [List.takeWhile_nil, List.append_nil]

/-- A minus sign can be seen from the first character. -/
theorem negative_iff (n : Plain) : n.negative = true ↔ n.characters.head? = some '-' := by
  rw [characters]
  cases n.negative with
  | true => simp
  | false =>
    obtain ⟨c, rest, hwhole⟩ := List.exists_cons_of_ne_nil n.whole.ne_nil
    have hdigit : c.isDigit = true := n.whole.isDigit c (hwhole ▸ List.mem_cons_self)
    have hminus : c ≠ '-' := fun h => absurd hdigit (h ▸ by decide)
    simp [hwhole, hminus]

/-- Numerals with the same text are the same. -/
theorem text_injective : Function.Injective text := by
  intro n m h
  have hcharacters : n.characters = m.characters := String.ofList_injective h
  -- the sign is in the first character, and the whole part ends where the first other character
  -- stands
  have hsign : n.negative = m.negative := by
    rw [Bool.eq_iff_iff, negative_iff, negative_iff, hcharacters]
  rw [characters, characters, hsign, List.append_cancel_left_eq] at hcharacters
  have hwhole : n.whole.run = m.whole.run := by
    rw [← n.takeWhile_body, ← m.takeWhile_body, hcharacters]
  rw [hwhole, List.append_cancel_left_eq] at hcharacters
  obtain ⟨negative, whole, fraction⟩ := n
  obtain ⟨negative', whole', fraction'⟩ := m
  cases hsign
  cases Digits.ext hwhole
  cases fraction with
  | none =>
    cases fraction' with
    | none => rfl
    | some digits => exact absurd hcharacters (by simp)
  | some digits =>
    cases fraction' with
    | none => exact absurd hcharacters (by simp)
    | some digits' =>
      cases Digits.ext (List.cons.inj hcharacters).2
      rfl

/-- A numeral has only digits, a minus sign and a point. -/
theorem not_mem_characters {n : Plain} {c : Char} (hc : c.isDigit = false) (hminus : c ≠ '-')
    (hpoint : c ≠ '.') : c ∉ n.characters := by
  have hdigit : c ∉ n.whole.run ++ n.places := fun hmem => by
    rw [n.isDigit_of_mem hmem] at hc
    exact Bool.noConfusion hc
  rw [List.mem_append, not_or] at hdigit
  rw [characters]
  simp only [List.mem_append, not_or]
  refine ⟨?_, hdigit.1, ?_⟩
  · split <;> simp [hminus]
  · split
    · simpa using ⟨hpoint, hdigit.2⟩
    · simp

end Plain

end Numeral

/-! ## Positional texts -/

namespace Decimal

/-- A decimal has a digit. -/
theorem characters_ne_nil (d : Decimal) : d.characters ≠ [] := Nat.toDigits_ne_nil

/-- A decimal is written with digits. -/
theorem isDigit_of_mem_characters {d : Decimal} {c : Char} (hc : c ∈ d.characters) :
    c.isDigit = true := Nat.isDigit_of_mem_toDigits (by decide) (by decide) hc

/-- A run of zeros is a run of digits. -/
theorem isDigit_of_mem_zeros {count : Nat} {c : Char} (hc : c ∈ List.replicate count '0') :
    c.isDigit = true := by
  rw [List.eq_of_mem_replicate hc]
  decide

/-- Zeros at the end of digits are not significant without a point. -/
theorem length_withoutZeros_le (run : List Char) (count : Nat) :
    (Numeral.withoutZeros ((run ++ List.replicate count '0').dropWhile (· = '0'))).length ≤
      run.length := by
  have hzeros : ∀ c ∈ List.replicate count '0', decide (c = '0') = true := by
    intro c hc
    simpa using List.eq_of_mem_replicate hc
  rw [Numeral.withoutZeros, List.dropWhile_append, List.length_reverse]
  split
  · simp
  · rw [List.reverse_append, List.reverse_replicate, List.dropWhile_append_of_pos hzeros]
    calc _ ≤ (run.dropWhile (· = '0')).reverse.length := (List.dropWhile_sublist _).length_le
      _ ≤ run.length := by
        rw [List.length_reverse]
        exact (List.dropWhile_sublist _).length_le

/-- The numeral is the decimal with all its places. -/
structure Writes (n : Numeral.Plain) (d : Decimal) : Prop where
  /-- Behind its sign it is the positional text. -/
  characters : n.characters = (if n.negative then ['-'] else []) ++ d.positional
  /-- Its digits are those of the decimal, and the zeros that the exponent adds. -/
  value : Numeral.value (n.whole.run ++ n.places) = d.digits * 10 ^ d.exponent.toNat
  /-- It has as many places behind the point as the exponent asks for. -/
  length : n.places.length = (-d.exponent).toNat
  /-- No other digits are significant. -/
  significant : n.significant ≤ Binary64.digitCount d.digits
  /-- It begins with the first digit, or with a zero that stands alone. -/
  leads : n.whole.run = ['0'] ∨ n.whole.run.head? = d.characters.head?

/-- A numeral that writes a decimal is worth as much. -/
theorem Writes.magnitude {n : Numeral.Plain} {d : Decimal} (h : Writes n d) :
    n.magnitude = d.value := by
  rw [Numeral.Plain.magnitude, h.value, h.length, Decimal.value]
  obtain hsign | hsign := le_total 0 d.exponent
  · rw [Int.toNat_of_nonpos (Int.neg_nonpos_of_nonneg hsign), pow_zero, div_one]
    nth_rewrite 2 [← Int.toNat_of_nonneg hsign]
    rw [zpow_natCast]
    push_cast
    rfl
  · rw [Int.toNat_of_nonpos hsign, pow_zero, mul_one, div_eq_mul_inv, ← zpow_natCast, ← zpow_neg,
      Int.toNat_of_nonneg (Int.neg_nonneg_of_nonpos hsign), neg_neg]

/-- The characters of a decimal are those of its digits. -/
theorem value_characters (d : Decimal) : Numeral.value d.characters = d.digits :=
  Numeral.value_toDigits _

section

variable {d : Decimal} (negative : Bool)

/-- A decimal without places is written as an integer. -/
theorem exists_plain_integer (hexponent : 0 ≤ d.exponent) :
    ∃ n : Numeral.Plain, n.negative = negative ∧ Writes n d := by
  let whole : Numeral.Digits := ⟨d.characters ++ List.replicate d.exponent.toNat '0',
    by simp [d.characters_ne_nil], fun c hc =>
      (List.mem_append.1 hc).elim isDigit_of_mem_characters isDigit_of_mem_zeros⟩
  refine ⟨⟨negative, whole, none⟩, rfl, ?_, ?_, ?_, ?_, .inr ?_⟩
  · rw [positional, if_pos hexponent, Numeral.Plain.characters_integer]
  · show Numeral.value (whole.run ++ []) = _
    rw [List.append_nil, Numeral.value_append, Numeral.value_zeros, List.length_replicate,
      value_characters, add_zero]
  · exact (Int.toNat_of_nonpos (by omega)).symm
  · rw [Numeral.Plain.significant_integer]
    exact length_withoutZeros_le _ _
  · exact List.head?_append_of_ne_nil _ d.characters_ne_nil

/-- The point is inside the digits. -/
theorem exists_plain_inside (hexponent : d.exponent < 0) (hpoint : 0 < d.point) :
    ∃ n : Numeral.Plain, n.negative = negative ∧ Writes n d := by
  have hlength : d.point = d.characters.length + d.exponent := rfl
  let whole : Numeral.Digits := ⟨d.characters.take d.point.toNat,
    by simp [d.characters_ne_nil]; omega,
    fun c hc => isDigit_of_mem_characters (List.mem_of_mem_take hc)⟩
  let fraction : Numeral.Digits := ⟨d.characters.drop d.point.toNat,
    by simp; omega,
    fun c hc => isDigit_of_mem_characters (List.mem_of_mem_drop hc)⟩
  have hrun : whole.run ++ fraction.run = d.characters := List.take_append_drop _ _
  refine ⟨⟨negative, whole, some fraction⟩, rfl, ?_, ?_, ?_, ?_, .inr ?_⟩
  · rw [positional, if_neg (not_le.2 hexponent), if_pos hpoint, Numeral.Plain.characters_fraction]
  · show Numeral.value (whole.run ++ fraction.run) = _
    rw [hrun, value_characters, Int.toNat_of_nonpos hexponent.le, pow_zero, mul_one]
  · show fraction.run.length = _
    simp only [fraction, List.length_drop]
    omega
  · rw [Numeral.Plain.significant_fraction, hrun]
    exact (List.dropWhile_sublist _).length_le
  · rw [← hrun, List.head?_append_of_ne_nil _ whole.ne_nil]

/-- The point is in front of the digits. -/
theorem exists_plain_front (hexponent : d.exponent < 0) (hpoint : d.point ≤ 0) :
    ∃ n : Numeral.Plain, n.negative = negative ∧ Writes n d := by
  have hlength : d.point = d.characters.length + d.exponent := rfl
  let fraction : Numeral.Digits := ⟨List.replicate (-d.point).toNat '0' ++ d.characters,
    by simp [d.characters_ne_nil],
    fun c hc => (List.mem_append.1 hc).elim isDigit_of_mem_zeros isDigit_of_mem_characters⟩
  have hrun : Numeral.Digits.zero.run ++ fraction.run =
      List.replicate ((-d.point).toNat + 1) '0' ++ d.characters := rfl
  refine ⟨⟨negative, .zero, some fraction⟩, rfl, ?_, ?_, ?_, ?_, .inl rfl⟩
  · rw [positional, if_neg (not_le.2 hexponent), if_neg (not_lt.2 hpoint),
      Numeral.Plain.characters_fraction]
    rfl
  · show Numeral.value (Numeral.Digits.zero.run ++ fraction.run) = _
    rw [hrun, Numeral.value_append, Numeral.value_zeros, zero_mul, zero_add, value_characters,
      Int.toNat_of_nonpos hexponent.le, pow_zero, mul_one]
  · show fraction.run.length = _
    simp only [fraction, List.length_append, List.length_replicate]
    omega
  · rw [Numeral.Plain.significant_fraction, hrun, List.dropWhile_append_of_pos]
    · exact (List.dropWhile_sublist _).length_le
    · intro c hc
      simpa using List.eq_of_mem_replicate hc

end

/-- A decimal with all its places is a plain numeral. -/
theorem exists_plain (d : Decimal) (negative : Bool) :
    ∃ n : Numeral.Plain, n.negative = negative ∧ Writes n d := by
  obtain hinteger | hexponent := le_or_gt 0 d.exponent
  · exact exists_plain_integer negative hinteger
  obtain hfront | hinside := le_or_gt d.point 0
  · exact exists_plain_front negative hexponent hfront
  · exact exists_plain_inside negative hexponent hinside

end Decimal

/-! ## Constants -/

namespace Wasm

variable {x : Binary64}

/-- An infinite double is written by its name. -/
theorem floatText_infinite (hx : x.isInfinite = true) :
    floatText x = if x.isNegative then "-inf" else "inf" := by
  have hword : x.magnitudeBits = Binary64.infinityBits := of_decide_eq_true hx
  have hnan : ¬ x.isNaN = true := by simp [Binary64.isNaN, hword]
  rw [floatText, if_neg hnan]
  dsimp only
  rw [if_pos hx]
  split <;> rfl

/-- The text of a finite double, as a sign and the places of a decimal. -/
theorem floatText_finite (hx : x.isFinite = true) :
    floatText x = String.ofList ((if x.isNegative then ['-'] else []) ++
      if x.isZero then ['0'] else (x.shortest .up).positional) := by
  have hword := Binary64.isFinite_iff.1 hx
  have hnan : ¬ x.isNaN = true := by
    rw [Binary64.isNaN, decide_eq_true_eq]
    omega
  have hinfinite : ¬ x.isInfinite = true := by
    rw [Binary64.isInfinite, decide_eq_true_eq]
    omega
  rw [floatText, if_neg hnan]
  dsimp only
  rw [if_neg hinfinite, String.ofList_append]
  cases x.isNegative <;> cases x.isZero <;> simp

/-- The text of a finite double is a plain numeral that denotes it, and no plain numeral with fewer
significant digits does. -/
theorem exists_numeral (hx : x.isFinite = true) : ∃ n : Numeral.Plain, floatText x = n.text ∧
    n.Denotes x ∧ ∀ other : Numeral.Plain, other.Denotes x → n.significant ≤ other.significant := by
  rw [floatText_finite hx]
  cases hzero : x.isZero with
  | true =>
    have hword : x.magnitudeBits = 0 := of_decide_eq_true hzero
    -- no digit of zero is significant, so no numeral has fewer
    refine ⟨⟨x.isNegative, .zero, none⟩, ?_, ?_, fun other _ => Nat.zero_le _⟩
    · rw [Numeral.Plain.text, Numeral.Plain.characters_integer]
      rfl
    · rw [Numeral.Plain.denotes_iff hx, Numeral.Plain.magnitude_integer, hword]
      exact ⟨rfl, by exact_mod_cast Binary64.covers_zero⟩
  | false =>
    have hword : x.magnitudeBits ≠ 0 := of_decide_eq_false hzero
    obtain ⟨hcovers, _, _, hshortest⟩ := Binary64.shortest_spec hword .up
    obtain ⟨n, hnegative, hwrites⟩ := (x.shortest .up).exists_plain x.isNegative
    refine ⟨n, ?_, ?_, fun other hother => ?_⟩
    · rw [Numeral.Plain.text, hwrites.characters, hnegative]
      rfl
    · rw [Numeral.Plain.denotes_iff hx, hwrites.magnitude]
      exact ⟨hnegative, hcovers⟩
    · have hother := ((Numeral.Plain.denotes_iff hx).1 hother).2
      obtain ⟨digits, exponent, hdecimal, hcount⟩ := other.exists_decimal
      rw [hdecimal] at hother
      -- zero is not covered, so the other numeral has a digit too
      have hdigits : digits ≠ 0 := by
        rintro rfl
        exact absurd (hother.pos hword) (by simp)
      calc n.significant ≤ Binary64.digitCount (x.shortest .up).digits := hwrites.significant
        _ ≤ Binary64.digitCount digits := hshortest digits exponent hother
        _ ≤ other.significant := hcount hdigits

/-- The texts of infinities have a letter. -/
theorem mem_floatText (hx : x.isInfinite = true) : 'i' ∈ (floatText x).toList := by
  rw [floatText_infinite hx]
  split <;> decide

/-- A finite double is not written as an infinite one. -/
theorem not_mem_floatText (hx : x.isFinite = true) : 'i' ∉ (floatText x).toList := by
  obtain ⟨n, htext, _⟩ := exists_numeral hx
  rw [htext, Numeral.Plain.text, String.toList_ofList]
  exact Numeral.Plain.not_mem_characters (by decide) (by decide) (by decide)

/-- Different doubles have different texts. -/
theorem floatText_injective {y : Binary64} (hx : x.isNaN = false) (hy : y.isNaN = false)
    (h : floatText y = floatText x) : y = x := by
  -- an infinity has a letter and a finite double has none; two finite doubles are told apart by
  -- their numerals
  obtain hx | hx := Binary64.isInfinite_or_isFinite hx <;>
    obtain hy | hy := Binary64.isInfinite_or_isFinite hy
  · rw [floatText_infinite hx, floatText_infinite hy] at h
    have hword : y.magnitudeBits = x.magnitudeBits :=
      (of_decide_eq_true hy).trans (of_decide_eq_true hx).symm
    refine Binary64.ext_magnitude ?_ hword
    cases hsign : x.isNegative <;> cases hsign' : y.isNegative <;> rw [hsign, hsign'] at h <;>
      first | rfl | exact absurd h (by decide)
  · exact absurd (h ▸ mem_floatText hx) (not_mem_floatText hy)
  · exact absurd (h ▸ mem_floatText hy) (not_mem_floatText hx)
  · obtain ⟨n, htext, hn, _⟩ := exists_numeral hx
    obtain ⟨m, htext', hm, _⟩ := exists_numeral hy
    obtain rfl : m = n := Numeral.Plain.text_injective (by rw [← htext, ← htext', h])
    exact hm.unique hn

end Wasm

/-- A floating-point constant is written with the text of its number. -/
theorem Code.render_float (x : Binary64) :
    (Code.float x).render = "(f64.const " ++ Wasm.floatText x ++ ")" := by
  simp [Code.float, Code.one, Code.render, Instr.renderRun, Instr.render, Instr.renderOperands,
    Wasm.headText, Gap.text, ← String.append_assoc]

/-- **Constants are written exactly.** The text of a constant that is a number is that of an infinity
or a plain numeral that rounds to it and has its sign, no plain numeral with fewer significant digits
does so, and no other number has the same text. -/
theorem Code.render_float_exact (x : Binary64) (hx : x.isNaN = false) :
    ∃ text, (Code.float x).render = "(f64.const " ++ text ++ ")" ∧
      (x.isInfinite = true ∧ text = (if x.isNegative then "-inf" else "inf") ∨
        x.isFinite = true ∧ ∃ n : Numeral.Plain, text = n.text ∧ n.Denotes x ∧
          ∀ other : Numeral.Plain, other.Denotes x → n.significant ≤ other.significant) ∧
      ∀ y : Binary64, y.isNaN = false → (Code.float y).render = (Code.float x).render → y = x := by
  refine ⟨Wasm.floatText x, Code.render_float x, ?_, fun y hy htext => ?_⟩
  · obtain hinfinite | hfinite := Binary64.isInfinite_or_isFinite hx
    · exact .inl ⟨hinfinite, Wasm.floatText_infinite hinfinite⟩
    · exact .inr ⟨hfinite, Wasm.exists_numeral hfinite⟩
  · rw [Code.render_float, Code.render_float] at htext
    refine Wasm.floatText_injective hx hy ?_
    exact String.append_right_inj _ |>.1 (String.append_left_inj _ |>.1 htext)

/-- The negative double next to zero. -/
def Binary64.leastNegative : Binary64 := ⟨0x8000000000000001⟩

/-- Its text has 324 places, and the only significant digit is the last one. -/
theorem Code.render_leastNegative : Binary64.leastNegative.isNaN = false ∧
    ∃ n : Numeral.Plain, (Code.float .leastNegative).render = "(f64.const " ++ n.text ++ ")" ∧
      n.Denotes .leastNegative ∧
      (∀ other : Numeral.Plain, other.Denotes .leastNegative → n.significant ≤ other.significant) ∧
      n.text = "-0." ++ String.ofList (List.replicate 323 '0') ++ "5" := by
  have hnan : Binary64.leastNegative.isNaN = false := by decide +kernel
  refine ⟨hnan, ?_⟩
  obtain ⟨text, hrender, ⟨hinfinite, _⟩ | ⟨_, n, htext, hn, hshortest⟩, _⟩ :=
    Code.render_float_exact .leastNegative hnan
  · exact absurd hinfinite (by decide +kernel)
  · refine ⟨n, htext ▸ hrender, hn, hshortest, ?_⟩
    rw [Code.render_float] at hrender
    have hplaces : Wasm.floatText .leastNegative =
      "-0." ++ String.ofList (List.replicate 323 '0') ++ "5" := by decide +kernel
    rw [← htext, ← hplaces]
    exact (String.append_right_inj _ |>.1 (String.append_left_inj _ |>.1 hrender)).symm

end PatchCompiler
