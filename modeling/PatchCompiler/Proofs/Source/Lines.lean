import Mathlib.Data.List.Basic
import PatchCompiler.Source.Text

/-! # Places in a text

A text is split around each of its lines: `Text.IsLine` names what stands before a line and after
it. An offset within a text lies on one of the lines, and `Text.place` gives its number and the
distance from its start; counted in the bytes of the text, there are as many newlines before the
offset as lines before the line. `Text.lineAt` gives a line as it is shown, without the newline and
a carriage return at its end. -/

namespace PatchCompiler

namespace Text

/-- The bytes of a text. -/
def bytes (text : String) : List UInt8 := text.toByteArray.data.toList

/-- The byte of a newline. -/
def newlineByte : UInt8 := 10

/-- A text is split around its line with a number, counted from one. -/
structure IsLine (text : List Char) (number : Nat) (before line after : List Char) : Prop where
  /-- The line stands between what is before and after it. -/
  split : text = before ++ line ++ after
  /-- Each line before it has ended. -/
  number_eq : number = before.count '\n' + 1
  /-- What is before it ends with a newline. -/
  starts : ∀ c ∈ before.getLast?, c = '\n'
  /-- No newline is part of the line. -/
  unbroken : '\n' ∉ line
  /-- What is after it begins with a newline. -/
  ends : ∀ c ∈ after.head?, c = '\n'

/-- A line as it is shown: where a newline ends it, a carriage return before the newline is left
out. -/
def shown (line after : List Char) : List Char :=
  if after ≠ [] ∧ line.getLast? = some '\r' then line.dropLast else line

variable {text before line after : List Char} {number : Nat}

/-! ## Bytes -/

/-- A newline is one byte. -/
theorem utf8Size_newline : ('\n' : Char).utf8Size = 1 := rfl

/-- The bytes of two texts add up. -/
@[simp] theorem byteCount_append (first second : List Char) :
    byteCount (first ++ second) = byteCount first + byteCount second := by
  induction first with
  | nil => simp [byteCount]
  | cons c rest ih => simp [byteCount, ih, Nat.add_assoc]

/-- No character is less than one byte. -/
theorem length_le_byteCount (chars : List Char) : chars.length ≤ byteCount chars := by
  induction chars with
  | nil => exact Nat.zero_le _
  | cons c rest ih =>
    have hsize := c.utf8Size_pos
    rw [List.length_cons, byteCount]
    omega

/-- The bytes of a text are those of its characters in turn. -/
theorem bytes_eq_flatMap (text : String) :
    bytes text = text.toList.flatMap String.utf8EncodeChar := by
  rw [bytes, ← String.utf8Encode_toList, List.utf8Encode, List.data_toByteArray]

/-- Characters are encoded in as many bytes as are counted. -/
theorem length_flatMap_utf8EncodeChar (chars : List Char) :
    (chars.flatMap String.utf8EncodeChar).length = byteCount chars := by
  induction chars with
  | nil => rfl
  | cons c rest ih => simp [byteCount, ih]

/-- A text has as many bytes as are counted. -/
theorem length_bytes (text : String) : (bytes text).length = byteCount text.toList := by
  rw [bytes_eq_flatMap, length_flatMap_utf8EncodeChar]

/-- The size of a text is the number of bytes that are counted. -/
theorem utf8ByteSize_eq (text : String) : text.utf8ByteSize = byteCount text.toList := by
  rw [← length_bytes, bytes]
  rfl

/-- The bytes of a character that takes more than one are greater than those of characters that
take one. -/
theorem le_of_mem_utf8EncodeChar {c : Char} (hc : 127 < c.val.toNat) {byte : UInt8}
    (h : byte ∈ String.utf8EncodeChar c) : 128 ≤ byte.toNat := by
  rw [String.utf8EncodeChar, if_neg (Nat.not_le.2 hc)] at h
  split at h
  · simp only [List.mem_cons, List.not_mem_nil, or_false] at h
    rcases h with rfl | rfl <;> rw [UInt8.toNat_ofNat'] <;> omega
  · split at h
    · simp only [List.mem_cons, List.not_mem_nil, or_false] at h
      rcases h with rfl | rfl | rfl <;> rw [UInt8.toNat_ofNat'] <;> omega
    · simp only [List.mem_cons, List.not_mem_nil, or_false] at h
      rcases h with rfl | rfl | rfl | rfl <;> rw [UInt8.toNat_ofNat'] <;> omega

/-- Only a newline has the byte of a newline. -/
theorem count_newlineByte_utf8EncodeChar (c : Char) :
    (String.utf8EncodeChar c).count newlineByte = if c = '\n' then 1 else 0 := by
  by_cases hc : c.val.toNat ≤ 127
  · have hbyte : UInt8.ofNat c.val.toNat = newlineByte ↔ c = '\n' := by
      constructor
      · intro h
        have hn : c.val.toNat % 256 = 10 := by
          rw [← UInt8.toNat_ofNat', h]
          rfl
        have hval : c.val.toNat = 10 := by omega
        exact Char.ext (UInt32.toNat_inj.1 hval)
      · rintro rfl
        rfl
    rw [String.utf8EncodeChar, if_pos hc, List.count_singleton]
    simp only [beq_iff_eq, hbyte]
  · have hnewline : c ≠ '\n' := by
      rintro rfl
      exact hc (by decide)
    rw [if_neg hnewline, List.count_eq_zero]
    intro h
    exact absurd (le_of_mem_utf8EncodeChar (Nat.not_le.1 hc) h) (by decide)

/-- Newlines are counted by their bytes. -/
theorem count_newlineByte (chars : List Char) :
    (chars.flatMap String.utf8EncodeChar).count newlineByte = chars.count '\n' := by
  induction chars with
  | nil => rfl
  | cons c rest ih =>
    rw [List.flatMap_cons, List.count_append, count_newlineByte_utf8EncodeChar, ih,
      List.count_cons, Nat.add_comm]
    simp

/-! ## Offsets -/

namespace IsLine

/-- One more line before. -/
theorem newline (h : IsLine text number before line after) :
    IsLine ('\n' :: text) (number + 1) ('\n' :: before) line after where
  split := by rw [h.split]; rfl
  number_eq := by rw [h.number_eq, List.count_cons_self]
  starts := by
    intro c hc
    cases before with
    | nil => simpa using hc.symm
    | cons d before => exact h.starts c (by simpa using hc)
  unbroken := h.unbroken
  ends := h.ends

/-- One more character before, where there is a line before. -/
theorem grow_before {c : Char} (hc : c ≠ '\n') (hbefore : before ≠ [])
    (h : IsLine text number before line after) :
    IsLine (c :: text) number (c :: before) line after where
  split := by rw [h.split]; rfl
  number_eq := by rw [h.number_eq, List.count_cons_of_ne hc]
  starts := by
    obtain ⟨d, before, rfl⟩ := List.exists_cons_of_ne_nil hbefore
    intro e he
    exact h.starts e (by simpa using he)
  unbroken := h.unbroken
  ends := h.ends

/-- One more character of the first line. -/
theorem grow {c : Char} (hc : c ≠ '\n') (h : IsLine text number [] line after) :
    IsLine (c :: text) number [] (c :: line) after where
  split := by rw [h.split]; rfl
  number_eq := h.number_eq
  starts := h.starts
  unbroken := by
    rw [List.mem_cons, not_or]
    exact ⟨hc.symm, h.unbroken⟩
  ends := h.ends

end IsLine

/-- An offset within a text lies on one of its lines. -/
theorem exists_isLine (text : List Char) {offset : Nat} (h : offset ≤ byteCount text) :
    ∃ number before line after, IsLine text number before line after ∧
      byteCount before ≤ offset ∧ offset ≤ byteCount before + byteCount line := by
  induction text generalizing offset with
  | nil => exact ⟨1, [], [], [], ⟨rfl, rfl, by simp, by simp, by simp⟩, Nat.zero_le _, h⟩
  | cons c rest ih =>
    have hsize := c.utf8Size_pos
    rw [byteCount] at h
    by_cases hc : c = '\n' ∧ offset = 0
    · obtain ⟨rfl, rfl⟩ := hc
      exact ⟨1, [], [], '\n' :: rest, ⟨rfl, rfl, by simp, by simp, by simp⟩, Nat.zero_le _,
        Nat.zero_le _⟩
    -- On which line of the rest the offset lies, where it may be within the character.
    obtain ⟨number, before, line, after, hline, hlow, hhigh⟩ :=
      @ih (offset - c.utf8Size) (by omega)
    by_cases hnewline : c = '\n'
    · subst hnewline
      refine ⟨_, _, _, _, hline.newline, ?_, ?_⟩ <;> rw [byteCount] <;> grind [utf8Size_newline]
    · cases before with
      | nil =>
        refine ⟨_, _, _, _, hline.grow hnewline, Nat.zero_le _, ?_⟩
        simp only [byteCount] at hhigh ⊢
        omega
      | cons d before =>
        have hpos := d.utf8Size_pos
        refine ⟨_, _, _, _, hline.grow_before hnewline (List.cons_ne_nil d before), ?_, ?_⟩
        all_goals
          simp only [byteCount] at hlow hhigh ⊢
          omega

/-- There are as many newline bytes before an offset as there are lines before its line. -/
theorem IsLine.number_eq_bytes {text : String}
    (h : IsLine text.toList number before line after) {offset : Nat}
    (low : byteCount before ≤ offset) (high : offset ≤ byteCount before + byteCount line) :
    number = 1 + ((bytes text).take offset).count newlineByte := by
  -- the offset may be within a character of the line, so bytes are counted and not characters
  have hline : ((line.flatMap String.utf8EncodeChar).take (offset - byteCount before)).count
      newlineByte = 0 := by
    refine List.count_eq_zero.2 fun hmem => ?_
    have hcount := List.count_pos_iff.2 (List.mem_of_mem_take hmem)
    rw [count_newlineByte] at hcount
    exact h.unbroken (List.count_pos_iff.1 hcount)
  rw [bytes_eq_flatMap, h.split, List.append_assoc, List.flatMap_append, List.flatMap_append,
    List.take_append, List.count_append, length_flatMap_utf8EncodeChar, List.take_append,
    length_flatMap_utf8EncodeChar, List.count_append, hline, List.take_of_length_le,
    count_newlineByte, h.number_eq]
  · rw [show offset - byteCount before - byteCount line = 0 by omega]
    simp
    omega
  · rw [length_flatMap_utf8EncodeChar]
    exact low

/-! ## The place of an offset -/

/-- Where what is before a line ends with a newline, so does what is left of it after its first
character. -/
theorem starts_tail {c : Char} (h : ∀ d ∈ (c :: before).getLast?, d = '\n') :
    (∀ d ∈ before.getLast?, d = '\n') ∧ (c ≠ '\n' → before ≠ []) := by
  cases before with
  | nil => exact ⟨by simp, fun hc _ => hc (h c (by simp))⟩
  | cons e before => exact ⟨fun d hd => h d (by simpa using hd), fun _ => List.cons_ne_nil e before⟩

/-- The walk to an offset passes all that is before its line. -/
theorem placeFrom_before {offset here number start : Nat} {rest : List Char}
    (hstarts : ∀ c ∈ before.getLast?, c = '\n') (h : here + byteCount before ≤ offset) :
    placeFrom offset here number start (before ++ rest) =
      placeFrom offset (here + byteCount before) (number + before.count '\n')
        (if before = [] then start else here + byteCount before) rest := by
  induction before generalizing here number start with
  | nil => rfl
  | cons c before ih =>
    obtain ⟨htail, hbefore⟩ := starts_tail hstarts
    have hsize := c.utf8Size_pos
    simp only [byteCount] at h
    have hhere : here < offset := by omega
    rw [List.cons_append, placeFrom, if_pos hhere]
    by_cases hc : c = '\n'
    · subst hc
      rw [utf8Size_newline] at h
      rw [if_pos rfl, @ih (here + 1) _ _ htail (by omega), List.count_cons_self,
        if_neg (List.cons_ne_nil _ _), byteCount, utf8Size_newline, Nat.add_assoc here,
        Nat.add_right_comm number, Nat.add_assoc number]
      cases before <;> simp [byteCount]
    · rw [if_neg hc, ih htail (by omega), List.count_cons_of_ne hc, if_neg (hbefore hc),
        if_neg (List.cons_ne_nil _ _), byteCount, Nat.add_assoc here]

/-- The walk to an offset ends on its line. -/
theorem placeFrom_line {offset here number start : Nat} (hline : '\n' ∉ line)
    (h : offset ≤ here + byteCount line) :
    placeFrom offset here number start (line ++ after) = (number, start) := by
  induction line generalizing here with
  | nil =>
    cases after with
    | nil => rfl
    | cons c after => exact if_neg (Nat.not_lt.2 h)
  | cons c line ih =>
    rw [List.mem_cons, not_or] at hline
    rw [byteCount] at h
    rw [List.cons_append, placeFrom, if_neg (Ne.symm hline.1), ih hline.2 (by omega), ite_self]

/-- The place of an offset is the number of its line and the distance from the start of the line. -/
theorem place_eq {text : String} (h : IsLine text.toList number before line after) {offset : Nat}
    (low : byteCount before ≤ offset) (high : offset ≤ byteCount before + byteCount line) :
    place text offset = (number, offset - byteCount before) := by
  have hwalk : placeFrom offset 0 1 0 text.toList = (number, byteCount before) := by
    rw [h.split, List.append_assoc, placeFrom_before h.starts (by omega),
      placeFrom_line h.unbroken (by omega), h.number_eq, Nat.add_comm]
    cases before <;> simp [byteCount]
  rw [place, hwalk]

/-! ## The text of a line -/

/-- A return at the end of a line is dropped. -/
theorem dropReturn_eq (line : List Char) :
    dropReturn line = if line.getLast? = some '\r' then line.dropLast else line := by
  rcases List.eq_nil_or_concat line with rfl | ⟨init, last, rfl⟩
  · rfl
  · by_cases hlast : last = '\r'
    · subst hlast
      simp [dropReturn]
    · simp [dropReturn, hlast]

/-- The characters of a line are gathered. -/
theorem linesFrom_line {current rest : List Char} (hline : '\n' ∉ line) :
    linesFrom current (line ++ rest) = linesFrom (line.reverse ++ current) rest := by
  induction line generalizing current with
  | nil => rfl
  | cons c line ih =>
    rw [List.mem_cons, not_or] at hline
    rw [List.cons_append, linesFrom, if_neg (Ne.symm hline.1), ih hline.2]
    simp

/-- The first line is all that comes before the first newline. -/
theorem linesFrom_first (hline : '\n' ∉ line) (hends : ∀ c ∈ after.head?, c = '\n') :
    (linesFrom [] (line ++ after))[0]?.getD [] = shown line after := by
  rw [linesFrom_line hline, List.append_nil, shown]
  cases after with
  | nil => cases line <;> simp [linesFrom]
  | cons c after =>
    cases hends c rfl
    simp [linesFrom, dropReturn_eq]

/-- Each newline ends one line. -/
theorem linesFrom_before {current : List Char} {index : Nat} {rest : List Char}
    (hstarts : ∀ c ∈ before.getLast?, c = '\n') (hcurrent : before = [] → current = []) :
    (linesFrom current (before ++ rest))[before.count '\n' + index]? =
      (linesFrom [] rest)[index]? := by
  induction before generalizing current with
  | nil =>
    rw [hcurrent rfl]
    simp
  | cons c before ih =>
    obtain ⟨htail, hbefore⟩ := starts_tail hstarts
    rw [List.cons_append, linesFrom]
    by_cases hc : c = '\n'
    · subst hc
      rw [if_pos rfl, List.count_cons_self, Nat.add_right_comm, List.getElem?_cons_succ]
      exact ih htail fun _ => rfl
    · rw [if_neg hc, List.count_cons_of_ne hc]
      exact ih htail fun hnil => absurd hnil (hbefore hc)

/-- The line with a number, as it is shown. -/
theorem lineAt_eq {text : String} (h : IsLine text.toList number before line after) :
    lineAt text number = String.ofList (shown line after) := by
  have hindex : number - 1 = before.count '\n' + 0 := by rw [h.number_eq]; rfl
  rw [lineAt, lines, hindex, h.split, List.append_assoc, linesFrom_before h.starts fun _ => rfl,
    linesFrom_first h.unbroken h.ends]

end Text

end PatchCompiler
