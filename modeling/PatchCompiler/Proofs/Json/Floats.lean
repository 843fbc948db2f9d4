import PatchCompiler.Json.Record
import PatchCompiler.Proofs.Json.Scalars
import PatchCompiler.Proofs.Number.Constants
import PatchCompiler.Proofs.Number.Scaling

/-! # Reading what was written: numbers that are no integers

The text of a double has a point or an exponent. `Floating` is such a text, and what a reader makes
of it: all its digits are one significand, the places behind the point and the exponent are one power
of ten, and the number is the significand scaled by the power. `Reread` says how far that is from the
double that was written. -/

namespace PatchCompiler

namespace Json

variable {rest : List Char}

/-! ## Parts of a number -/

/-- The mark of an exponent, its sign and its digits. -/
def exponentText (k : Int) : List Char :=
  'e' :: (if k < 0 then '-' else '+') :: Nat.toDigits 10 k.natAbs

namespace Passes

/-- A reader that starts from its cursor passes if it does from each offset. -/
theorem get {α : Type} {reader : Cursor → Reader α} {before after : List Char} {a : α}
    (h : ∀ offset, Passes (reader ⟨before, offset⟩) before after a) :
    Passes (MonadState.get >>= reader) before after a :=
  fun offset => h offset offset

variable {negative : Bool} {significand : Nat} {power : Int} {x : Binary64}

/-- A scaled significand that is in range is passed as its double, with its sign. -/
theorem scaled (h : Binary64.ofScaled significand power = some x) :
    Passes (Json.scaled negative significand power) rest rest
      (.float (if negative then x.neg else x)) := by
  rw [Json.scaled, h]
  exact pure _ rest

/-- The digits of an exponent add to the power of ten. -/
theorem exponent {k : Int} (hk : k.natAbs ≤ maxExponent) (hrest : Stops rest)
    (h : Binary64.ofScaled significand (power + k) = some x) :
    Passes (Json.exponent negative significand power) (exponentText k ++ rest) rest
      (.float (if negative then x.neg else x)) := by
  obtain ⟨c, digits, hdigits, hc⟩ := toDigits_digit k.natAbs
  have hread : Passes Json.digits (Nat.toDigits 10 k.natAbs ++ rest) rest
      (Nat.toDigits 10 k.natAbs) :=
    Passes.digits (fun d hd => Nat.isDigit_of_mem_toDigits (by decide) (by decide) hd)
      hrest.not_digit
  have hextend : extend maxExponent 0 (Nat.toDigits 10 k.natAbs) = (k.natAbs, []) := by
    rw [extend_eq (by rwa [Nat.ofDigitChars_ten_toDigits]), Nat.ofDigitChars_ten_toDigits]
  rw [exponentText]
  generalize hsign : (if k < 0 then '-' else '+') = sign
  have hsigned : (decide (some sign = some '-') || decide (some sign = some '+')) = true := by
    rw [← hsign]
    split <;> rfl
  have hpower :
      (if some sign = some '-' then power - k.natAbs else power + k.natAbs) = power + k := by
    rw [← hsign]
    obtain hneg | hpos := lt_or_ge k 0
    · rw [if_pos hneg, if_pos rfl]
      omega
    · rw [if_neg (not_lt.2 hpos), if_neg (by decide)]
      omega
  have hpeek (text : List Char) : Passes Json.peek (sign :: text) (sign :: text) (some sign) :=
    peek _
  -- the sign is looked at twice before it is passed over
  refine (eat 'e' _).bind ((hpeek _).bind ((hpeek _).bind ?_))
  dsimp only
  rw [if_pos hsigned]
  refine (eat sign _).bind ?_
  have hfirst : Passes Json.peek (Nat.toDigits 10 k.natAbs ++ rest)
      (Nat.toDigits 10 k.natAbs ++ rest) (some c) := by
    rw [hdigits]
    exact peek _
  refine hfirst.bind ?_
  dsimp only
  rw [if_pos hc]
  refine get fun offset => hread.bind ?_
  rw [hextend, if_pos List.isEmpty_nil, hpower]
  exact scaled h

/-- The mark of an exponent is seen where it stands. -/
theorem atExponent_mark (text : List Char) :
    Passes Json.atExponent ('e' :: text) ('e' :: text) true :=
  (peek _).bind (pure true _)

/-- A digit is seen where it stands. -/
theorem atDigit {c : Char} (hc : c.isDigit = true) (text : List Char) :
    Passes Json.atDigit (c :: text) (c :: text) true :=
  (peek _).bind (hc ▸ pure _ _)

/-- The digits behind a point extend the significand. -/
theorem fraction {run tail : List Char} {value : Numeric} (hne : run ≠ [])
    (hrun : ∀ c ∈ run, c.isDigit = true) (htail : ∀ c ∈ tail.head?, c.isDigit = false)
    (hfits : Nat.ofDigitChars 10 run significand ≤ maxSignificand)
    (h : Passes (do
      if ← Json.atExponent then
        Json.exponent negative (Nat.ofDigitChars 10 run significand) (power - run.length)
      else Json.scaled negative (Nat.ofDigitChars 10 run significand) (power - run.length))
      tail rest value) :
    Passes (Json.fraction negative significand power) ('.' :: (run ++ tail)) rest value := by
  have hread : Passes fractionDigits ('.' :: (run ++ tail)) tail run := by
    refine (eat '.' _).bind ?_
    obtain ⟨c, digits, hdigits⟩ := List.exists_cons_of_ne_nil hne
    have hfirst : Passes Json.atDigit (run ++ tail) (run ++ tail) true := by
      rw [hdigits]
      exact atDigit (hrun c (hdigits ▸ List.mem_cons_self)) _
    exact hfirst.bind (Passes.digits hrun htail)
  refine hread.bind ?_
  rw [extend_eq hfits]
  exact h

end Passes

/-! ## Numbers with a point or an exponent -/

/-- A number that has a point or an exponent. -/
structure Floating extends Numeral.Plain where
  /-- The exponent, if there is one. -/
  power : Option Int
  /-- A zero in front of the point stands alone. -/
  leads : whole.run = ['0'] ∨ whole.run.head? ≠ some '0'
  /-- There is a point or an exponent. -/
  marked : fraction.isSome ∨ power.isSome

namespace Floating

/-- The exponent with its mark; nothing if there is none. -/
def tail (n : Floating) : List Char := (n.power.map exponentText).getD []

/-- The number as it is written. -/
def text (n : Floating) : List Char := n.characters ++ n.tail

/-- All digits, without the point. -/
def significand (n : Floating) : Nat := Numeral.value (n.whole.run ++ n.places)

/-- The power of ten that scales the digits. -/
def scale (n : Floating) : Int := n.power.getD 0 - n.places.length

/-- The number that is written. -/
def value (n : Floating) : ℚ :=
  if n.negative then -(n.significand * 10 ^ n.scale) else n.significand * 10 ^ n.scale

/-- No digit follows the places of a number. -/
theorem not_digit_tail (n : Floating) (hrest : Stops rest) :
    ∀ c ∈ (n.tail ++ rest).head?, c.isDigit = false := by
  rw [tail]
  cases n.power with
  | none => exact hrest.not_digit
  | some k =>
    intro c hc
    obtain rfl := Option.some.inj hc
    rfl

/-- What follows the digits behind a point: an exponent, or the end of the number. -/
theorem passes_tail (n : Floating) {negative : Bool} {significand : Nat} {power : Int}
    {x : Binary64} (hpower : ∀ k ∈ n.power, k.natAbs ≤ maxExponent) (hrest : Stops rest)
    (h : Binary64.ofScaled significand (power + n.power.getD 0) = some x) :
    Passes (do
      if ← atExponent then exponent negative significand power
      else scaled negative significand power)
      (n.tail ++ rest) rest (.float (if negative then x.neg else x)) := by
  rw [tail]
  cases hn : n.power with
  | none =>
    rw [hn, Option.getD_none, add_zero] at h
    exact (Passes.atExponent hrest).bind (Passes.scaled h)
  | some k =>
    rw [hn, Option.getD_some] at h
    exact (Passes.atExponent_mark _).bind (Passes.exponent (hpower k hn) hrest h)

/-- The digits of a number are those in front of the point and those behind it. -/
theorem significand_eq (n : Floating) :
    n.significand = Nat.ofDigitChars 10 n.places (Nat.ofDigitChars 10 n.whole.run 0) := by
  rw [significand, Numeral.value_eq, Nat.ofDigitChars_append]

/-- The digits in front of the point are no more than all of them. -/
theorem whole_le (n : Floating) : Nat.ofDigitChars 10 n.whole.run 0 ≤ n.significand := by
  rw [significand, Numeral.value_append, Numeral.value_eq]
  exact (Nat.le_mul_of_pos_right _ (by positivity)).trans (Nat.le_add_right _ _)

section

variable (n : Floating) {x : Binary64} (hfits : n.significand ≤ maxSignificand)
  (hpower : ∀ k ∈ n.power, k.natAbs ≤ maxExponent) (hrest : Stops rest)
  (h : Binary64.ofScaled n.significand n.scale = some x)

include hfits hpower hrest h

/-- Digits without a point are followed by an exponent. -/
theorem unsigned_of_integer (hpoint : n.fraction = none) :
    Passes (unsigned n.negative) (n.whole.run ++ (n.tail ++ rest)) rest
      (.float (if n.negative then x.neg else x)) := by
  have hplaces : n.places = [] := by rw [Numeral.Plain.places, hpoint]; rfl
  obtain ⟨k, hk⟩ := Option.isSome_iff_exists.1 (n.marked.resolve_left (by simp [hpoint]))
  have htail : n.tail = exponentText k := by rw [tail, hk]; rfl
  rw [significand_eq, scale, hplaces, hk] at h
  refine (Passes.integerDigits_of_run n.whole.ne_nil n.whole.isDigit n.leads
    (n.not_digit_tail hrest)).bind ?_
  rw [extend_eq (n.whole_le.trans hfits), htail]
  refine (Passes.peek _).bind ((Passes.atExponent_mark _).bind ?_)
  exact Passes.exponent (hpower k hk) hrest (by simpa using h)

/-- Digits in front of a point are followed by others, and perhaps by an exponent. -/
theorem unsigned_of_fraction {places : Numeral.Digits} (hpoint : n.fraction = some places) :
    Passes (unsigned n.negative) (n.whole.run ++ '.' :: (places.run ++ (n.tail ++ rest))) rest
      (.float (if n.negative then x.neg else x)) := by
  have hrun : n.places = places.run := by rw [Numeral.Plain.places, hpoint]; rfl
  have hdigits := n.significand_eq
  rw [hrun] at hdigits
  rw [hdigits, scale, hrun] at h
  have hplaces : (([] : List Char).length : ℤ) - places.run.length + n.power.getD 0 =
      n.power.getD 0 - places.run.length := by
    rw [List.length_nil, Nat.cast_zero]
    ring
  refine (Passes.integerDigits_of_run n.whole.ne_nil n.whole.isDigit n.leads ?_).bind ?_
  · intro c hc
    obtain rfl := Option.some.inj hc
    rfl
  rw [extend_eq (n.whole_le.trans hfits)]
  exact (Passes.peek _).bind (Passes.fraction places.ne_nil places.isDigit
    (n.not_digit_tail hrest) (hdigits ▸ hfits) (n.passes_tail hpower hrest (hplaces ▸ h)))

/-- A number with a point or an exponent is its digits, scaled by a power of ten. -/
theorem passes :
    Passes Json.number (n.text ++ rest) rest (.float (if n.negative then x.neg else x)) := by
  have hbody : n.text ++ rest = (if n.negative then ['-'] else []) ++ (n.whole.run ++
      ((if n.fraction.isSome then '.' :: n.places else []) ++ (n.tail ++ rest))) := by
    rw [text, Numeral.Plain.characters]
    simp only [List.append_assoc]
  rw [hbody]
  refine Passes.number_of_unsigned ?_ ?_
  · obtain ⟨c, digits, hrun⟩ := List.exists_cons_of_ne_nil n.whole.ne_nil
    have hc := n.whole.isDigit c (hrun ▸ List.mem_cons_self)
    rw [hrun]
    rintro ⟨⟩
    exact absurd hc (by decide)
  -- what follows the digits in front of the point decides which of the readers goes on
  cases hpoint : n.fraction with
  | none => exact n.unsigned_of_integer hfits hpower hrest h hpoint
  | some places =>
    have hrun : n.places = places.run := by rw [Numeral.Plain.places, hpoint]; rfl
    rw [hrun]
    exact n.unsigned_of_fraction hfits hpower hrest h hpoint

end

end Floating

/-! ## Texts of decimals -/

/-- The significand and the power of ten that stand in the text of a decimal. -/
def written (d : Decimal) : Decimal :=
  if 0 ≤ d.exponent ∧ d.point ≤ 16 then ⟨d.digits * 10 ^ (d.exponent.toNat + 1), -1⟩ else d

/-- A plain numeral without places has no point. -/
theorem fraction_eq_none {n : Numeral.Plain} (h : n.places.length = 0) : n.fraction = none := by
  cases hn : n.fraction with
  | none => rfl
  | some digits =>
    rw [Numeral.Plain.places, hn] at h
    exact absurd (List.length_eq_zero_iff.1 h) digits.ne_nil

/-- A number with digits behind the point has a fraction. -/
theorem fraction_isSome {n : Numeral.Plain} (h : n.places.length ≠ 0) :
    n.fraction.isSome = true := by
  cases hn : n.fraction with
  | none =>
    rw [Numeral.Plain.places, hn] at h
    exact absurd rfl h
  | some digits => rfl

variable {d : Decimal}

/-- The digits of a decimal other than zero do not begin with a zero. -/
theorem leads_characters (hd : d.digits ≠ 0) : d.characters.head? ≠ some '0' := by
  obtain ⟨c, digits, h, hzero⟩ := toDigits_begins d.digits hd
  rw [Decimal.characters, h, List.head?_cons]
  exact fun heq => hzero (Option.some.inj heq)

/-- The scientific text of a decimal is a number with its digits and its exponent. -/
theorem exists_scientific (hd : d.digits ≠ 0) (negative : Bool) : ∃ n : Floating,
    n.negative = negative ∧ n.text = (if negative then ['-'] else []) ++ d.scientific ∧
      n.significand = d.digits ∧ n.scale = d.exponent ∧ n.power = some (d.point - 1) := by
  obtain ⟨c, digits, hcharacters⟩ := List.exists_cons_of_ne_nil d.characters_ne_nil
  have hpoint : d.point = (digits.length + 1 : ℕ) + d.exponent := by
    rw [Decimal.point, hcharacters, List.length_cons]
  have hvalue : Numeral.value (c :: digits) = d.digits := hcharacters ▸ d.value_characters
  have hdigit : ∀ a ∈ c :: digits, a.isDigit = true :=
    fun a ha => Decimal.isDigit_of_mem_characters (hcharacters ▸ ha)
  have hleads : [c].head? ≠ some '0' := by
    have := leads_characters hd
    rwa [hcharacters] at this
  let first : Numeral.Digits := ⟨[c], List.cons_ne_nil _ _, by simpa using hdigit c⟩
  rw [Decimal.scientific, hcharacters]
  cases digits with
  | nil =>
    refine ⟨⟨⟨negative, first, none⟩, some (d.point - 1), .inr hleads, .inr rfl⟩, rfl, ?_, hvalue,
      ?_, rfl⟩
    · rw [Floating.text, Numeral.Plain.characters_integer, List.append_assoc]
      rfl
    · show d.point - 1 - (0 : ℕ) = d.exponent
      rw [hpoint]
      simp
  | cons second others =>
    let others : Numeral.Digits := ⟨second :: others, List.cons_ne_nil _ _,
      fun a ha => hdigit a (List.mem_cons_of_mem _ ha)⟩
    refine ⟨⟨⟨negative, first, some others⟩, some (d.point - 1), .inr hleads, .inr rfl⟩, rfl, ?_,
      hvalue, ?_, rfl⟩
    · rw [Floating.text, Numeral.Plain.characters_fraction, List.append_assoc]
      rfl
    · show d.point - 1 - (others.run.length : ℕ) = d.exponent
      rw [hpoint]
      show ((others.run.length + 1 : ℕ) : ℤ) + d.exponent - 1 - _ = _
      push_cast
      ring

/-- The text of a decimal is a number with the digits and the scale that were written. -/
theorem exists_floating (hd : d.digits ≠ 0) (negative : Bool) : ∃ n : Floating,
    n.negative = negative ∧ n.text = (if negative then ['-'] else []) ++ decimalText d ∧
      n.significand = (written d).digits ∧ n.scale = (written d).exponent ∧
      ∀ k ∈ n.power, k = d.point - 1 := by
  obtain ⟨n, rfl, hwrites⟩ := d.exists_plain negative
  have hleads : n.whole.run = ['0'] ∨ n.whole.run.head? ≠ some '0' :=
    hwrites.leads.imp_right fun h => h.trans_ne (leads_characters hd)
  rw [written, decimalText]
  by_cases hinteger : 0 ≤ d.exponent ∧ d.point ≤ 16
  · -- an integer with a zero behind its point
    rw [if_pos hinteger, if_pos hinteger]
    have hplaces : n.places.length = 0 := by
      rw [hwrites.length]
      omega
    refine ⟨⟨⟨n.negative, n.whole, some .zero⟩, none, hleads, .inl rfl⟩, rfl, ?_, ?_, rfl,
      fun k hk => absurd hk (Option.not_mem_none k)⟩
    · have hrun := hwrites.characters
      rw [Numeral.Plain.characters, fraction_eq_none hplaces, Option.isSome_none,
        if_neg Bool.false_ne_true, List.append_nil, List.append_cancel_left_eq] at hrun
      rw [Floating.text, Numeral.Plain.characters_fraction, hrun]
      exact (List.append_nil _).trans rfl
    · have hvalue := hwrites.value
      rw [List.length_eq_zero_iff.1 hplaces, List.append_nil] at hvalue
      show Numeral.value (n.whole.run ++ ['0']) = _
      rw [Numeral.value_append, hvalue, pow_succ, ← mul_assoc]
      rfl
  rw [if_neg hinteger, if_neg hinteger]
  by_cases hpositional : -5 < d.point ∧ d.point ≤ 16
  · -- all places
    rw [if_pos hpositional]
    have hzeros : d.exponent.toNat = 0 := by omega
    have hplaces : n.places.length ≠ 0 := by
      rw [hwrites.length]
      omega
    refine ⟨⟨n, none, hleads, .inl (fraction_isSome hplaces)⟩, rfl, ?_, ?_, ?_,
      fun k hk => absurd hk (Option.not_mem_none k)⟩
    · exact (List.append_nil _).trans hwrites.characters
    · exact hwrites.value.trans (by rw [hzeros, pow_zero, mul_one])
    · show 0 - (n.places.length : ℤ) = d.exponent
      rw [hwrites.length]
      omega
  · rw [if_neg hpositional]
    obtain ⟨m, hnegative, htext, hdigits, hscale, hpower⟩ := exists_scientific hd n.negative
    exact ⟨m, hnegative, htext, hdigits, hscale, fun k hk => (Option.some.inj (hpower ▸ hk)).symm⟩

/-- What stands in the text of a decimal is worth as much as the decimal. -/
theorem value_written (d : Decimal) : (written d).value = d.value := by
  rw [written]
  split
  next h =>
    rw [Decimal.value, Decimal.value, pow_succ, zpow_neg_one]
    nth_rewrite 2 [← Int.toNat_of_nonneg h.1]
    rw [zpow_natCast]
    push_cast
    field_simp
  next => rfl

/-- What stands in the text of a short decimal has seventeen digits, or is the next power of ten. -/
theorem digits_written_le (h : d.digits < 10 ^ 17) : (written d).digits ≤ 10 ^ 17 := by
  rw [written]
  split
  next hinteger =>
    have hdigits := Binary64.lt_pow_digitCount d.digits
    have hpoint : d.point = Binary64.digitCount d.digits + d.exponent := rfl
    calc d.digits * 10 ^ (d.exponent.toNat + 1)
        ≤ 10 ^ Binary64.digitCount d.digits * 10 ^ (d.exponent.toNat + 1) :=
          Nat.mul_le_mul_right _ hdigits.le
      _ = 10 ^ (Binary64.digitCount d.digits + (d.exponent.toNat + 1)) := (pow_add _ _ _).symm
      _ ≤ 10 ^ 17 := Nat.pow_le_pow_right (by decide) (by omega)
  next => exact h.le

/-! ## Texts of doubles -/

/-- The significand and the power of ten that stand in the text of a double. -/
def parts (x : Binary64) : Decimal := if x.isZero then ⟨0, -1⟩ else written (x.shortest .even)

variable {x : Binary64}

/-- The text of a zero is a zero with one place. -/
theorem parts_of_zero (hx : x.magnitudeBits = 0) : parts x = ⟨0, -1⟩ := if_pos (decide_eq_true hx)

/-- The text of another double is that of its shortest decimal. -/
theorem parts_of_ne_zero (hx : x.magnitudeBits ≠ 0) : parts x = written (x.shortest .even) :=
  if_neg (by rw [Binary64.isZero, decide_eq_false hx]; exact Bool.false_ne_true)

/-- The text of a double names a number that rounds to it. -/
theorem covers_parts (x : Binary64) : Binary64.Covers x.magnitudeBits (parts x).value := by
  obtain hx | hx := eq_or_ne x.magnitudeBits 0
  · rw [parts_of_zero hx, hx, Decimal.value, Nat.cast_zero, zero_mul]
    exact Binary64.covers_zero
  · rw [parts_of_ne_zero hx, value_written]
    exact (Binary64.shortest_spec hx .even).1

/-- The text of a double has seventeen digits, or is the next power of ten. -/
theorem digits_parts_le (x : Binary64) : (parts x).digits ≤ 10 ^ 17 := by
  obtain hx | hx := eq_or_ne x.magnitudeBits 0
  · rw [parts_of_zero hx]
    exact Nat.zero_le _
  · rw [parts_of_ne_zero hx]
    exact digits_written_le (Binary64.shortest_spec hx .even).2.2.1

/-- The text of a finite double is a number with its parts. -/
theorem exists_floatText (hx : x.isFinite = true) : ∃ n : Floating,
    n.negative = x.isNegative ∧ n.text = (floatText x).toList ∧
      n.significand = (parts x).digits ∧ n.scale = (parts x).exponent ∧
      ∀ k ∈ n.power, k.natAbs ≤ maxExponent := by
  have hsign (magnitude : List Char) :
      (String.ofList (if x.isNegative then '-' :: magnitude else magnitude)).toList =
        (if x.isNegative then ['-'] else []) ++ magnitude := by
    rw [String.toList_ofList]
    split <;> rfl
  rw [floatText, hsign]
  obtain hzero | hzero := eq_or_ne x.magnitudeBits 0
  · rw [if_pos (show x.isZero = true from decide_eq_true hzero), parts_of_zero hzero]
    exact ⟨⟨⟨x.isNegative, .zero, some .zero⟩, none, .inl rfl, .inl rfl⟩, rfl, List.append_nil _,
      rfl, rfl, fun k hk => absurd hk (Option.not_mem_none k)⟩
  · have hzero' : ¬ x.isZero = true := by simpa [Binary64.isZero] using hzero
    obtain ⟨hcovers, hlast, hdigits, _⟩ := Binary64.shortest_spec hzero .even
    have hpos : (x.shortest .even).digits ≠ 0 := fun h => hlast (by rw [h])
    obtain ⟨n, hnegative, htext, hdigits', hscale, hpower⟩ := exists_floating hpos x.isNegative
    rw [if_neg hzero', parts_of_ne_zero hzero]
    refine ⟨n, hnegative, htext, hdigits', hscale, fun k hk => ?_⟩
    have hbounds := Binary64.power_bounds (Nat.pos_of_ne_zero hpos) hdigits.le hzero
      (Binary64.isFinite_iff.1 hx) hcovers
    have hcount := Binary64.digitCount_le (by decide : 0 < 17) hdigits
    have hpoint : (x.shortest .even).point =
      Binary64.digitCount (x.shortest .even).digits + (x.shortest .even).exponent := rfl
    have hmax : maxExponent = 2 ^ 31 - 1 := rfl
    have hmax' : Binary64.maxPower = 308 := rfl
    rw [hpower k hk]
    omega

/-- The text of a number begins as numbers do. -/
theorem Floating.begins (n : Floating) : ∃ c text, n.text = c :: text ∧ beginsNumber c = true := by
  rw [text, Numeral.Plain.characters]
  cases n.negative with
  | true => exact ⟨'-', _, rfl, rfl⟩
  | false =>
    obtain ⟨c, digits, hrun⟩ := List.exists_cons_of_ne_nil n.whole.ne_nil
    have hc := n.whole.isDigit c (hrun ▸ List.mem_cons_self)
    rw [hrun]
    exact ⟨c, _, rfl, by rw [beginsNumber, hc, Bool.or_true]⟩

/-- A double is read as its parts are scaled. -/
theorem Takes.float (hx : x.isFinite = true) {y : Binary64}
    (h : Binary64.ofScaled (parts x).digits (parts x).exponent = some y) :
    Takes Json.float (.float x) (if x.isNegative then y.neg else y) := by
  intro rest hrest
  obtain ⟨n, hnegative, htext, hdigits, hscale, hpower⟩ := exists_floatText hx
  obtain ⟨c, text, hc, hbegins⟩ := n.begins
  rw [← hdigits, ← hscale] at h
  have hfits : n.significand ≤ maxSignificand :=
    hdigits ▸ (digits_parts_le x).trans (by decide)
  rw [Value.render, if_pos hx, ← htext, ← hnegative]
  have hneed : Passes Json.need (n.text ++ rest) (n.text ++ rest) c := by
    rw [hc]
    exact Passes.need (isBlank_of_beginsNumber hbegins)
  refine hneed.bind ?_
  rw [if_pos hbegins]
  exact (n.passes hfits hpower hrest h).bind (Passes.pure _ rest)

/-- The two greatest finite words are read as finite words. -/
theorem scaled_greatest : ∀ negative,
    ∀ word ∈ [Binary64.infinityBits - 2, Binary64.infinityBits - 1],
    Binary64.ofScaled (parts (.ofMagnitude negative word)).digits
      (parts (.ofMagnitude negative word)).exponent =
        some (.ofMagnitude false (Binary64.infinityBits - 1)) := by decide +kernel

/-- The parts of a finite double are scaled to a word at most two away from its own. -/
theorem exists_scaled (hx : x.isFinite = true) : ∃ word, word < Binary64.infinityBits ∧
    (word ≤ x.magnitudeBits + 2 ∧ x.magnitudeBits ≤ word + 2) ∧
      Binary64.ofScaled (parts x).digits (parts x).exponent = some (.ofMagnitude false word) := by
  have hword := Binary64.isFinite_iff.1 hx
  obtain hzero | hzero := eq_or_ne x.magnitudeBits 0
  · have hcovers : Binary64.Covers 0 (((0 : ℕ) : ℚ) * 10 ^ (-1 : ℤ)) := by
      rw [Nat.cast_zero, zero_mul]
      exact Binary64.covers_zero
    refine ⟨0, by decide, by omega, ?_⟩
    rw [parts_of_zero hzero]
    exact Binary64.ofScaled_of_exact (by norm_num) (by decide) hcovers (by decide)
  -- two words up from the others there is still a finite one
  obtain hlt | hge := lt_or_ge (x.magnitudeBits + 2) Binary64.infinityBits
  · have hcovers := covers_parts x
    have hpos : 0 < (parts x).digits := by
      refine Nat.pos_of_ne_zero fun hdigits => absurd (hcovers.pos hzero) ?_
      rw [Decimal.value, hdigits, Nat.cast_zero, zero_mul]
      exact lt_irrefl 0
    obtain ⟨word, hnear, hscaled⟩ :=
      Binary64.exists_word hpos (digits_parts_le x) hzero hlt hcovers
    exact ⟨word, by omega, hnear, hscaled⟩
  · have hgreatest : x.magnitudeBits ∈ [Binary64.infinityBits - 2, Binary64.infinityBits - 1] := by
      simp only [List.mem_cons, List.not_mem_nil, or_false]
      omega
    obtain ⟨_, hbits, hsign⟩ := Binary64.ofMagnitude_finite x.isNegative hword
    have hx' : x = .ofMagnitude x.isNegative x.magnitudeBits :=
      Binary64.ext_magnitude hsign.symm hbits.symm
    refine ⟨Binary64.infinityBits - 1, by decide, by omega, ?_⟩
    rw [hx']
    exact scaled_greatest _ _ hgreatest

/-! ## Doubles that are read again -/

/-- What a double `y` that is read has to do with the double `x` that was written. -/
structure Reread (x y : Binary64) : Prop where
  /-- The text is a number that rounds to `x`. -/
  text : ∃ n : Floating, (Value.float x).render = String.ofList n.text ∧
    n.significand = (parts x).digits ∧ n.scale = (parts x).exponent ∧ Binary64.RoundsTo n.value x
  /-- What is read are the digits of that number, scaled by its power of ten. -/
  scaled : Binary64.ofScaled (parts x).digits (parts x).exponent =
    some (.ofMagnitude false y.magnitudeBits)
  /-- It is finite. -/
  finite : y.isFinite = true
  /-- It has the sign of `x`. -/
  sign : y.isNegative = x.isNegative
  /-- At most one double lies between the two. -/
  near : y.magnitudeBits ≤ x.magnitudeBits + 2 ∧ x.magnitudeBits ≤ y.magnitudeBits + 2
  /-- Digits and powers of ten that are doubles themselves are scaled exactly. -/
  exact : (parts x).digits ≤ 2 ^ 53 → (parts x).exponent.natAbs ≤ 22 → y = x

/-- Finite doubles of the same sign are the same if their magnitudes are. -/
theorem ofMagnitude_inj {first second : Nat} (hfirst : first < Binary64.infinityBits)
    (hsecond : second < Binary64.infinityBits)
    (h : Binary64.ofMagnitude false first = .ofMagnitude false second) : first = second := by
  rw [← (Binary64.ofMagnitude_finite false hfirst).2.1, h,
    (Binary64.ofMagnitude_finite false hsecond).2.1]

/-- The number in the text of a double rounds to it. -/
theorem roundsTo_value (hx : x.isFinite = true) {n : Floating}
    (hnegative : n.negative = x.isNegative) (hdigits : n.significand = (parts x).digits)
    (hscale : n.scale = (parts x).exponent) :
    Binary64.RoundsTo n.value x := by
  have hvalue : n.value = if x.isNegative then -(parts x).value else (parts x).value := by
    rw [Floating.value, hnegative, hdigits, hscale]
    rfl
  have hnonneg : 0 ≤ (parts x).value := by
    rw [Decimal.value]
    positivity
  rw [hvalue]
  refine (Binary64.roundsTo_iff hx (fun hneg => ?_) fun hpos => ?_).2 ?_
  · rw [if_pos hneg]
    exact neg_nonpos.2 hnonneg
  · rwa [if_neg (by simp [hpos])]
  · have habs : |if x.isNegative then -(parts x).value else (parts x).value| = (parts x).value := by
      split
      · rw [abs_neg, abs_of_nonneg hnonneg]
      · exact abs_of_nonneg hnonneg
    rw [habs]
    exact covers_parts x

/-- A finite double is read as one of the same sign that is at most two words away. -/
theorem Takes.exists_reread (hx : x.isFinite = true) :
    ∃ y, Takes Json.float (.float x) y ∧ Reread x y := by
  obtain ⟨word, hfinite, hnear, hscaled⟩ := exists_scaled hx
  obtain ⟨hfinite', hword, hsign⟩ := Binary64.ofMagnitude_finite x.isNegative hfinite
  have htakes : Takes Json.float (.float x) (.ofMagnitude x.isNegative word) := by
    obtain ⟨_, hword', hsign'⟩ := Binary64.ofMagnitude_finite false hfinite
    have hy : (if x.isNegative then (Binary64.ofMagnitude false word).neg
        else Binary64.ofMagnitude false word) = .ofMagnitude x.isNegative word := by
      cases x.isNegative with
      | false => rfl
      | true => rw [if_pos rfl, Binary64.neg, hsign', hword', Bool.not_false]
    exact hy ▸ Takes.float hx hscaled
  obtain ⟨n, hnegative, htext, hdigits, hscale, _⟩ := exists_floatText hx
  refine ⟨_, htakes, ⟨⟨n, ?_, hdigits, hscale, roundsTo_value hx hnegative hdigits hscale⟩,
    by rwa [hword], hfinite', hsign, by rwa [hword], fun hsmall hpower => ?_⟩⟩
  · rw [Value.render, if_pos hx, htext, String.ofList_toList]
  · have hexact := Binary64.ofScaled_of_exact hsmall hpower (covers_parts x)
      (Binary64.isFinite_iff.1 hx)
    have hwords := ofMagnitude_inj hfinite (Binary64.isFinite_iff.1 hx)
      (Option.some.inj (hscaled.symm.trans hexact))
    exact Binary64.ext_magnitude hsign (hword.trans hwords)

end Json

end PatchCompiler
