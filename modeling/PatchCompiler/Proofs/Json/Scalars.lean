import PatchCompiler.Json.Flat

/-! # Reading what was written: scalars

`Passes` says what a reader does with the characters in front of it, whatever its offset in the
document is. It composes along `>>=`, so that a reader is followed step by step through a text.
`Takes` says that a reader understands the text of a JSON value. What follows the text matters only
to numbers, which have to end where their text ends. -/

namespace PatchCompiler

namespace Json

variable {α β : Type}

/-- Reading the characters `before` gives the value and leaves the characters `after`. -/
def Passes (reader : Reader α) (before after : List Char) (value : α) : Prop :=
  ∀ offset, ∃ offset', reader ⟨before, offset⟩ = .ok value ⟨after, offset'⟩

namespace Passes

variable {before middle after rest : List Char} {a : α} {b : β}

/-- A result passes over nothing. -/
theorem pure (a : α) (text : List Char) : Passes (Pure.pure a) text text a :=
  fun offset => ⟨offset, rfl⟩

/-- Readers in turn pass over their texts in turn. -/
theorem bind {first : Reader α} {second : α → Reader β} (h₁ : Passes first before middle a)
    (h₂ : Passes (second a) middle after b) : Passes (first >>= second) before after b := by
  intro offset
  obtain ⟨offset₁, h₁⟩ := h₁ offset
  obtain ⟨offset₂, h₂⟩ := h₂ offset₁
  refine ⟨offset₂, ?_⟩
  change EStateM.bind first second _ = _
  rw [EStateM.bind, h₁]
  exact h₂

/-- A reader whose value is changed passes over the same text. -/
theorem map {reader : Reader α} (f : α → β) (h : Passes reader before after a) :
    Passes (f <$> reader) before after (f a) := by
  intro offset
  obtain ⟨offset', h⟩ := h offset
  refine ⟨offset', ?_⟩
  change EStateM.map f reader _ = _
  rw [EStateM.map, h]

/-! ## Single characters -/

/-- A look at the next character passes over nothing. -/
theorem peek (text : List Char) : Passes Json.peek text text text.head? :=
  fun offset => ⟨offset, rfl⟩

/-- Taking a character passes over it. -/
theorem eat (c : Char) (rest : List Char) : Passes Json.eat (c :: rest) rest () :=
  fun _ => ⟨_, rfl⟩

/-- A look behind blanks passes over nothing where there are none. -/
theorem next {c : Char} (hc : isBlank c = false) :
    Passes Json.next (c :: rest) (c :: rest) (some c) := by
  have skipped : Passes skipBlanks (c :: rest) (c :: rest) () := by
    intro offset
    refine ⟨offset, ?_⟩
    change EStateM.Result.ok () (⟨List.dropWhile isBlank (c :: rest), _⟩ : Cursor) = _
    simp [hc]
  exact skipped.bind (peek _)

/-- A look at the end of the text finds nothing. -/
theorem next_end : Passes Json.next [] [] none := fun _ => ⟨_, rfl⟩

/-- A character that is needed is found where it stands. -/
theorem need {c : Char} (hc : isBlank c = false) : Passes Json.need (c :: rest) (c :: rest) c :=
  (next hc).bind (pure c _)

/-- A count of what is left is greater than its length. -/
theorem enough (text : List Char) : Passes Json.enough text text (text.length + 1) :=
  fun offset => ⟨offset, rfl⟩

/-- The rest of a literal is passed over. -/
theorem expectRest (name rest : List Char) :
    Passes (Json.expectRest name) (name ++ rest) rest () := by
  induction name with
  | nil => exact pure () rest
  | cons c name ih =>
    refine (peek _).bind ?_
    change Passes (if c = c then do { Json.eat; Json.expectRest name } else _) _ _ _
    rw [if_pos rfl]
    exact (eat c _).bind ih

/-- A literal is passed over. -/
theorem literal (name : String) {c : Char} {letters : List Char} (h : name.toList = c :: letters)
    (rest : List Char) : Passes (Json.literal name) (name.toList ++ rest) rest () := by
  rw [Json.literal, h]
  exact (eat c _).bind (expectRest letters rest)

/-! ## The frame of a container -/

/-- A colon is passed over. -/
theorem colon (rest : List Char) : Passes Json.colon (':' :: rest) rest () :=
  (next rfl).bind (eat _ _)

/-- The end of a list is passed over. -/
theorem closeList (rest : List Char) : Passes Json.closeList (']' :: rest) rest () :=
  (next rfl).bind (eat _ _)

/-- The end of an object is passed over. -/
theorem closeObject (rest : List Char) : Passes Json.closeObject ('}' :: rest) rest () :=
  (next rfl).bind (eat _ _)

/-- The contents of a container are passed over with its end. -/
theorem enclosed {contents : Reader α} {close : Reader Unit} (h₁ : Passes contents before middle a)
    (h₂ : Passes close middle after ()) : Passes (Json.enclosed contents close) before after a := by
  intro offset
  obtain ⟨offset₁, h₁⟩ := h₁ offset
  obtain ⟨offset₂, h₂⟩ := h₂ offset₁
  refine ⟨offset₂, ?_⟩
  rw [Json.enclosed, h₁]
  dsimp only
  rw [h₂]

/-- A container is opened while there are levels. -/
theorem opening {inner : Nat} {contents : (n : Nat) → n < inner + 1 → Reader α} {c : Char}
    (h : Passes (contents inner (Nat.lt_succ_self inner)) before after a) :
    Passes (Json.opening (inner + 1) contents) (c :: before) after a :=
  (eat c before).bind h

end Passes

/-! ## Strings -/

/-- Reading an escaped character gives the character back. -/
theorem scan_escape (c : Char) (offset : Nat) (rest : List Char) :
    ∃ offset', scan offset (escape c ++ rest) = Scan.cons c (scan offset' rest) := by
  unfold escape
  split
  case h_8 _ hquote hslash _ _ _ _ _ =>
    by_cases hc : c.toNat < 0x20
    · -- a control character without a short escape: its number has two digits
      have hex : ∀ n < 0x20, hexQuad? '0' '0' (hexDigit (n / 16)) (hexDigit (n % 16)) = some n := by
        decide
      refine ⟨offset + 6, ?_⟩
      rw [if_pos hc]
      have plain : isLowSurrogate c.toNat = false ∧ isHighSurrogate c.toNat = false := by
        simp only [isLowSurrogate, isHighSurrogate, Bool.and_eq_false_iff, decide_eq_false_iff_not]
        omega
      simp only [List.cons_append, List.nil_append, scan, hex _ hc, plain.1, plain.2,
        Bool.false_eq_true, if_false, Char.ofNat_toNat]
    · refine ⟨offset + c.utf8Size, ?_⟩
      rw [if_neg hc, List.singleton_append, scan]
      · rw [if_neg hc]
      all_goals intros; simp_all
  all_goals exact ⟨_, rfl⟩

/-- Reading an escaped text up to its closing quote gives the text back. -/
theorem scan_escaped (chars : List Char) (offset : Nat) (rest : List Char) :
    ∃ offset',
      scan offset (chars.flatMap escape ++ '"' :: rest) = .ok (chars, ⟨rest, offset'⟩) := by
  induction chars generalizing offset with
  | nil => exact ⟨offset + 1, by rw [List.flatMap_nil, List.nil_append, scan]⟩
  | cons c chars ih =>
    obtain ⟨offset₁, h₁⟩ := scan_escape c offset (chars.flatMap escape ++ '"' :: rest)
    obtain ⟨offset₂, h₂⟩ := ih offset₁
    refine ⟨offset₂, ?_⟩
    rw [List.flatMap_cons, List.append_assoc, h₁, h₂]
    rfl

/-- The text of a string is its characters, escaped, within quotes. -/
theorem toList_stringText (s : String) :
    (stringText s).toList = '"' :: (s.toList.flatMap escape ++ ['"']) := by
  rw [stringText, String.toList_ofList]

/-- The text of a string is passed over and gives the string. -/
theorem Passes.quotedString (s : String) (rest : List Char) :
    Passes Json.quotedString ((stringText s).toList ++ rest) rest s := by
  rw [toList_stringText, List.cons_append, List.append_assoc, List.singleton_append]
  refine (Passes.eat _ _).bind fun offset => ?_
  obtain ⟨offset', h⟩ := scan_escaped s.toList offset rest
  refine ⟨offset', ?_⟩
  change EStateM.bind EStateM.get _ _ = _
  dsimp only [EStateM.bind, EStateM.get]
  rw [h]
  change EStateM.Result.ok (String.ofList s.toList) _ = _
  rw [String.ofList_toList]

/-! ## Values -/

/-- What may follow a value: a comma, the end of a container, or the end of the text. -/
def Stops (rest : List Char) : Prop := ∀ c ∈ rest.head?, c = ',' ∨ c = ']' ∨ c = '}'

/-- The reader understands the text of the JSON value, and it stands for `a`. -/
def Takes (reader : Reader α) (value : Value) (a : α) : Prop :=
  ∀ rest, Stops rest → Passes reader (value.render.toList ++ rest) rest a

/-- The text of the value begins with a quote or a brace, as those of strings and objects do: not
with a blank, the end of a container, or the first letter of `null`. -/
def Value.Marked (value : Value) : Prop :=
  ∃ c text, value.render.toList = c :: text ∧ (c = '"' ∨ c = '{')

/-- The text of a string begins with a quote. -/
theorem Value.marked_string (s : String) : (Value.string s).Marked :=
  ⟨'"', _, by rw [Value.render, toList_stringText], .inl rfl⟩

/-- The text of an object begins with a brace. -/
theorem Value.marked_object (members : List (String × Value)) : (Value.object members).Marked :=
  ⟨'{', _, by rw [Value.render, String.append_assoc, String.toList_append]; rfl, .inr rfl⟩

namespace Takes

variable {reader : Reader α} {value : Value} {a : α}

/-- A reader whose value is changed takes the same text. -/
theorem map (f : α → β) (h : Takes reader value a) : Takes (f <$> reader) value (f a) :=
  fun rest hrest => (h rest hrest).map f

/-- A string is read back from its text. -/
theorem string (s : String) : Takes Json.string (.string s) s := by
  intro rest _
  have text : (Value.string s).render.toList ++ rest
      = '"' :: (s.toList.flatMap escape ++ ['"'] ++ rest) := by
    rw [Value.render, toList_stringText, List.cons_append]
  refine Passes.bind (text ▸ Passes.need rfl) ?_
  rw [if_pos rfl]
  exact Passes.quotedString s rest

/-- A missing value is read back from its text. -/
theorem optional_none (reader : Reader α) : Takes (optional reader) .null none := by
  intro rest _
  refine (Passes.next (c := 'n') rfl).bind ?_
  rw [if_pos rfl]
  exact (Passes.literal "null" rfl rest).bind (.pure none _)

/-- A value that may be missing is read back if it is there. -/
theorem optional_some (h : Takes reader value a) (hv : value.Marked) :
    Takes (optional reader) value (some a) := by
  intro rest hrest
  obtain ⟨c, text, hc, begins⟩ := hv
  have hnext :
      Passes next (value.render.toList ++ rest) (value.render.toList ++ rest) (some c) := by
    rw [hc]
    rcases begins with rfl | rfl <;> exact Passes.next rfl
  refine hnext.bind ?_
  rw [if_neg (by rcases begins with rfl | rfl <;> decide)]
  exact (h rest hrest).bind (.pure _ _)

end Takes

/-! ## Integers

An integer that fits into 64 bits is read back digit by digit. -/

/-- Digits that fit are all taken. -/
theorem extend_eq {bound n : Nat} {digits : List Char}
    (h : Nat.ofDigitChars 10 digits n ≤ bound) :
    extend bound n digits = (Nat.ofDigitChars 10 digits n, []) := by
  -- reading on never makes a number smaller, so no digit is left out on the way
  have grows : ∀ (digits : List Char) (n : Nat), n ≤ Nat.ofDigitChars 10 digits n := by
    intro digits
    induction digits with
    | nil => exact Nat.le_refl
    | cons c digits ih =>
      intro n
      rw [Nat.ofDigitChars_cons]
      have := ih (10 * n + (c.toNat - '0'.toNat))
      omega
  induction digits generalizing n with
  | nil => rfl
  | cons c digits ih =>
    rw [Nat.ofDigitChars_cons] at h ⊢
    have fits : 10 * n + Numeral.digitValue c ≤ bound := Nat.le_trans (grows digits _) h
    rw [extend, if_pos fits]
    exact ih h

/-- The decimal digits of a number begin with a zero only if it is zero. -/
theorem toDigits_begins (n : Nat) (hn : n ≠ 0) :
    ∃ c digits, Nat.toDigits 10 n = c :: digits ∧ c ≠ '0' := by
  induction n using Nat.strongRecOn with
  | ind n ih =>
    by_cases hten : n < 10
    · refine ⟨n.digitChar, [], Nat.toDigits_of_lt_base hten, ?_⟩
      rwa [Ne, Nat.digitChar_eq_zero]
    · obtain ⟨c, digits, hc, hzero⟩ := ih (n / 10) (by omega) (by omega)
      refine ⟨c, digits ++ [(n % 10).digitChar], ?_, hzero⟩
      rw [Nat.toDigits_of_base_le (by decide) (by omega), hc, List.cons_append]

/-- No digit stands where a value ends. -/
theorem Stops.not_digit {rest : List Char} (h : Stops rest) :
    ∀ c ∈ rest.head?, c.isDigit = false := by
  intro c hc
  rcases h c hc with rfl | rfl | rfl <;> rfl

/-- Digits are passed over up to something else. -/
theorem Passes.digits {run rest : List Char} (hrun : ∀ c ∈ run, c.isDigit = true)
    (hrest : ∀ c ∈ rest.head?, c.isDigit = false) :
    Passes Json.digits (run ++ rest) rest run := by
  intro offset
  have left : rest.dropWhile Char.isDigit = rest ∧ rest.takeWhile Char.isDigit = [] := by
    cases rest with
    | nil => exact ⟨rfl, rfl⟩
    | cons c rest => simp [hrest c rfl]
  refine ⟨offset + run.length, ?_⟩
  change EStateM.Result.ok ((run ++ rest).takeWhile Char.isDigit)
    (⟨(run ++ rest).dropWhile Char.isDigit,
      offset + ((run ++ rest).takeWhile Char.isDigit).length⟩ : Cursor) = _
  rw [List.takeWhile_append_of_pos hrun, List.dropWhile_append_of_pos hrun, left.1, left.2,
    List.append_nil]

/-- A run of digits that begins with a zero only if that is all is read up to its end. -/
theorem Passes.integerDigits_of_run {run rest : List Char} (hne : run ≠ [])
    (hrun : ∀ c ∈ run, c.isDigit = true) (hleads : run = ['0'] ∨ run.head? ≠ some '0')
    (hrest : ∀ c ∈ rest.head?, c.isDigit = false) :
    Passes Json.integerDigits (run ++ rest) rest run := by
  rcases hleads with rfl | hleads
  · -- after a zero, the reader makes sure that no other digit follows
    refine (Passes.peek _).bind ((Passes.eat '0' rest).bind ?_)
    have none : Passes atDigit rest rest false := by
      refine (Passes.peek rest).bind ?_
      cases h : rest.head? with
      | none => exact Passes.pure false rest
      | some c => exact (hrest c h) ▸ Passes.pure _ rest
    exact none.bind (Passes.pure _ rest)
  · obtain ⟨c, digits, h⟩ := List.exists_cons_of_ne_nil hne
    refine (Passes.peek _).bind ?_
    rw [h, List.cons_append, List.head?_cons]
    split
    · contradiction
    · simp_all
    · rename_i d _ hd
      obtain rfl := Option.some.inj hd
      rw [if_pos (hrun c (h ▸ List.mem_cons_self)), ← List.cons_append, ← h]
      exact Passes.digits hrun hrest

/-- The digits of a natural number are passed over. -/
theorem Passes.integerDigits (n : Nat) {rest : List Char} (hrest : Stops rest) :
    Passes Json.integerDigits (Nat.toDigits 10 n ++ rest) rest (Nat.toDigits 10 n) := by
  refine Passes.integerDigits_of_run Nat.toDigits_ne_nil
    (fun d hd => Nat.isDigit_of_mem_toDigits (by decide) (by decide) hd) ?_ hrest.not_digit
  by_cases hn : n = 0
  · exact .inl (hn ▸ rfl)
  · obtain ⟨c, digits, h, hzero⟩ := toDigits_begins n hn
    refine .inr ?_
    rw [h, List.head?_cons]
    exact fun heq => hzero (Option.some.inj heq)

/-- There is no exponent where a value ends. -/
theorem Passes.atExponent {rest : List Char} (hrest : Stops rest) :
    Passes Json.atExponent rest rest false := by
  refine (Passes.peek rest).bind ?_
  have none : (decide (rest.head? = some 'e') || decide (rest.head? = some 'E')) = false := by
    cases h : rest.head? with
    | none => rfl
    | some c => rcases hrest c h with rfl | rfl | rfl <;> rfl
  rw [none]
  exact Passes.pure false rest

/-- The text of an integer: the digits of its magnitude, behind a sign if it is negative. -/
theorem toList_toString_int (n : Int) :
    (toString n).toList
      = if n < 0 then '-' :: Nat.toDigits 10 n.natAbs else Nat.toDigits 10 n.natAbs := by
  cases n with
  | ofNat k => exact Nat.toList_repr
  | negSucc k =>
    rw [if_pos (Int.negSucc_lt_zero k)]
    change ("-" ++ (k + 1).repr).toList = '-' :: Nat.toDigits 10 (k + 1)
    rw [String.toList_append, Nat.toList_repr]
    rfl

/-- A natural number is written with at least one digit. -/
theorem toDigits_digit (n : Nat) :
    ∃ c digits, Nat.toDigits 10 n = c :: digits ∧ c.isDigit = true := by
  cases h : Nat.toDigits 10 n with
  | nil => exact absurd h Nat.toDigits_ne_nil
  | cons c digits =>
    exact ⟨c, digits, rfl,
      Nat.isDigit_of_mem_toDigits (by decide) (by decide) (h ▸ List.mem_cons_self)⟩

/-- A number behind its sign. -/
def unsigned (negative : Bool) : Reader Numeric := do
  let run ← integerDigits
  let kept := extend maxSignificand 0 run
  if (← peek) = some '.' then fraction negative kept.1 kept.2.length
  else if ← atExponent then exponent negative kept.1 kept.2.length
  else if kept.2.isEmpty then return whole negative kept.1
  else scaled negative kept.1 kept.2.length

/-- A number is passed over with its sign in front. -/
theorem Passes.number_of_unsigned {negative : Bool} {text rest : List Char} {value : Numeric}
    (htext : text.head? ≠ some '-') (h : Passes (unsigned negative) text rest value) :
    Passes Json.number ((if negative then ['-'] else []) ++ text) rest value := by
  cases negative with
  | true => exact (Passes.peek _).bind ((Passes.eat '-' _).bind h)
  | false =>
    refine (Passes.peek text).bind ?_
    dsimp only
    rw [if_neg htext, decide_eq_false htext]
    exact h

/-- A magnitude that fits into 64 bits is read from its decimal digits. -/
theorem Passes.unsigned {n : Nat} (hn : n ≤ maxSignificand) (negative : Bool) {rest : List Char}
    (hrest : Stops rest) :
    Passes (Json.unsigned negative) (Nat.toDigits 10 n ++ rest) rest (whole negative n) := by
  have hpoint : rest.head? ≠ some '.' := fun h => absurd (hrest '.' h) (by decide)
  refine (Passes.integerDigits n hrest).bind ?_
  rw [extend_eq (by rwa [Nat.ofDigitChars_ten_toDigits]), Nat.ofDigitChars_ten_toDigits]
  refine (Passes.peek rest).bind ?_
  rw [if_neg hpoint]
  refine (Passes.atExponent hrest).bind ?_
  rw [if_neg Bool.false_ne_true, if_pos List.isEmpty_nil]
  exact Passes.pure _ rest

/-- A number that fits into 64 bits is read from its decimal digits. -/
theorem Passes.number {n : Int} (low : Int64.minValue.toInt ≤ n) (high : n ≤ maxSignificand)
    {rest : List Char} (hrest : Stops rest) :
    Passes Json.number ((toString n).toList ++ rest) rest (.int n) := by
  have hleast : Int64.minValue.toInt = -2 ^ 63 := rfl
  have hmagnitude : n.natAbs ≤ maxSignificand := by
    have : maxSignificand = 2 ^ 64 - 1 := rfl
    omega
  have plain : (Nat.toDigits 10 n.natAbs ++ rest).head? ≠ some '-' := by
    obtain ⟨c, digits, h, hc⟩ := toDigits_digit n.natAbs
    rw [h]
    rintro ⟨⟩
    exact absurd hc (by decide)
  rw [toList_toString_int]
  by_cases hn : n < 0
  · have value : whole true n.natAbs = .int n := by
      -- a magnitude beyond the least 64-bit integer would be read as a double
      rw [whole, if_neg (by decide), if_neg (by omega)]
      congr 1
      omega
    rw [if_pos hn, List.cons_append, ← value]
    exact Passes.number_of_unsigned plain (Passes.unsigned hmagnitude true hrest)
  · have value : whole false n.natAbs = .int n := by
      rw [whole, if_pos (by decide)]
      congr 1
      omega
    rw [if_neg hn, ← value]
    exact Passes.number_of_unsigned plain (Passes.unsigned hmagnitude false hrest)

/-- A number does not begin with a blank. -/
theorem isBlank_of_beginsNumber {c : Char} (h : beginsNumber c = true) : isBlank c = false := by
  cases hblank : isBlank c with
  | false => rfl
  | true =>
    simp only [isBlank, Bool.or_eq_true, decide_eq_true_eq] at hblank
    rcases hblank with ((rfl | rfl) | rfl) | rfl <;> exact absurd h (by decide)

/-- The text of an integer begins as numbers do. -/
theorem Passes.need_number (n : Int) (rest : List Char) : ∃ c, beginsNumber c = true ∧
    Passes Json.need ((toString n).toList ++ rest) ((toString n).toList ++ rest) c := by
  have begins : ∃ c text, (toString n).toList = c :: text ∧ beginsNumber c = true := by
    rw [toList_toString_int]
    obtain ⟨c, digits, h, hc⟩ := toDigits_digit n.natAbs
    split
    · exact ⟨'-', _, rfl, rfl⟩
    · exact ⟨c, digits, h, by rw [beginsNumber, hc, Bool.or_true]⟩
  obtain ⟨c, text, h, hc⟩ := begins
  rw [h]
  exact ⟨c, hc, Passes.need (isBlank_of_beginsNumber hc)⟩

/-- An integer within the bounds is read back from its text. -/
theorem Takes.integer {low high n : Int} {expected : String} (hn : low ≤ n ∧ n ≤ high)
    (hlow : Int64.minValue.toInt ≤ low) (hhigh : high ≤ maxSignificand) :
    Takes (Json.integer low high expected) (.int n) n := by
  intro rest hrest
  rw [Value.render]
  obtain ⟨c, hc, first⟩ := Passes.need_number n rest
  refine first.bind ?_
  rw [if_pos hc]
  refine (Passes.number (by omega) (by omega) hrest).bind ?_
  dsimp only
  rw [if_pos hn]
  exact Passes.pure n rest

/-- A signed word is read back from its text. -/
theorem Takes.int32 (n : Int32) : Takes Json.int32 (.int n.toInt) n := by
  intro rest hrest
  have hn : Int32.minValue.toInt ≤ n.toInt ∧ n.toInt ≤ Int32.maxValue.toInt :=
    ⟨n.minValue_le_toInt, n.toInt_le⟩
  refine (Takes.integer hn (by decide) (by decide) rest hrest).bind ?_
  rw [Int32.ofInt_toInt]
  exact Passes.pure n rest

/-- A natural number below a bound of at most 64 bits. -/
theorem Takes.natural {size n : Nat} {expected : String} (hn : n < size)
    (hsize : size ≤ UInt64.size) :
    Takes (Json.integer 0 (.ofNat (size - 1)) expected) (.nat n) n := by
  refine Takes.integer ⟨Int.natCast_nonneg n, ?_⟩ (by decide) ?_
  · exact Int.ofNat_le.mpr (Nat.le_sub_one_of_lt hn)
  · exact Int.ofNat_le.mpr (Nat.sub_le_sub_right hsize 1)

/-- A short word is read back from its text. -/
theorem Takes.uint16 (n : UInt16) : Takes Json.uint16 (.nat n.toNat) n := by
  intro rest hrest
  refine (Takes.natural n.toNat_lt_size (by decide) rest hrest).bind ?_
  rw [Int.toNat_natCast, UInt16.ofNat_toNat]
  exact Passes.pure n rest

/-- A word is read back from its text. -/
theorem Takes.uint32 (n : UInt32) : Takes Json.uint32 (.nat n.toNat) n := by
  intro rest hrest
  refine (Takes.natural n.toNat_lt_size (by decide) rest hrest).bind ?_
  rw [Int.toNat_natCast, UInt32.ofNat_toNat]
  exact Passes.pure n rest

/-- A long word is read back from its text. -/
theorem Takes.count (n : UInt64) : Takes Json.count (.nat n.toNat) n := by
  intro rest hrest
  refine (Takes.natural n.toNat_lt_size (Nat.le_refl _) rest hrest).bind ?_
  rw [Int.toNat_natCast, UInt64.ofNat_toNat]
  exact Passes.pure n rest

end Json

end PatchCompiler
