import Mathlib.Data.List.DropRight
import PatchCompiler.Proofs.Source.Lines

/-! # Lines between offsets

A `SourceText` finds a line by two offsets of its table of line starts. The table has an entry for
each line of the text, so that the offsets of a line are the number of bytes before it and that
number with the bytes of the line added. Main statement: the lines that are found are the pieces of
the text between newlines, without carriage returns at their ends, and the offsets never cut a
character. -/

namespace PatchCompiler

namespace Text

variable {text before line after : List Char} {number : Nat}

/-! ## The table of line starts -/

/-- The ends of lines of two texts follow each other, counted from where each one begins. -/
theorem newlineEnds_append (here : Nat) (first second : List Char) :
    newlineEnds here (first ++ second) =
      newlineEnds here first ++ newlineEnds (here + byteCount first) second := by
  induction first generalizing here with
  | nil => rfl
  | cons c first ih =>
    rw [List.cons_append, newlineEnds, newlineEnds, byteCount, ← Nat.add_assoc]
    by_cases hc : c = '\n'
    · subst hc
      rw [if_pos rfl, if_pos rfl, ih, utf8Size_newline, List.cons_append]
    · rw [if_neg hc, if_neg hc, ih]

/-- A line without a newline has no end. -/
theorem newlineEnds_of_unbroken (here : Nat) (hline : '\n' ∉ line) :
    newlineEnds here line = [] := by
  induction line generalizing here with
  | nil => rfl
  | cons c line ih =>
    rw [List.mem_cons, not_or] at hline
    rw [newlineEnds, if_neg (Ne.symm hline.1), ih _ hline.2]

/-- There are as many ends of lines as newlines. -/
theorem length_newlineEnds (here : Nat) (text : List Char) :
    (newlineEnds here text).length = text.count '\n' := by
  induction text generalizing here with
  | nil => rfl
  | cons c rest ih =>
    rw [newlineEnds]
    by_cases hc : c = '\n'
    · rw [if_pos hc, List.length_cons, ih, hc, List.count_cons_self]
    · rw [if_neg hc, ih, List.count_cons_of_ne hc]

/-- There is a line start for each newline, and the start of the text. -/
theorem length_lineStarts (text : List Char) :
    (lineStarts text).length = text.count '\n' + 1 := by
  rw [lineStarts, List.length_cons, length_newlineEnds]

/-- The starts of lines of a text go on behind a text in front. -/
theorem lineStarts_append (first second : List Char) :
    lineStarts (first ++ second) = lineStarts first ++ newlineEnds (byteCount first) second := by
  rw [lineStarts, newlineEnds_append, Nat.zero_add, lineStarts, List.cons_append]

/-- Where a text ends with a newline, its last line starts at its end. -/
theorem lineStarts_getElem?_count (h : ∀ c ∈ before.getLast?, c = '\n') :
    (lineStarts before)[before.count '\n']? = some (byteCount before) := by
  rcases List.eq_nil_or_concat before with rfl | ⟨init, last, rfl⟩
  · rfl
  · cases h last (by simp)
    -- The newline at the end adds one entry to the table of what is before it.
    rw [List.concat_eq_append, lineStarts_append, List.count_append, List.count_singleton_self,
      ← length_lineStarts, List.getElem?_append_right (Nat.le_refl _), Nat.sub_self]
    simp [newlineEnds, byteCount, utf8Size_newline]

namespace IsLine

/-- The table has the start of each line. -/
theorem start_eq (h : IsLine text number before line after) :
    (lineStarts text)[before.count '\n']? = some (byteCount before) := by
  have hlt : before.count '\n' < (lineStarts before).length := by
    rw [length_lineStarts]
    exact Nat.lt_succ_self _
  rw [h.split, List.append_assoc, lineStarts_append, List.getElem?_append_left hlt,
    lineStarts_getElem?_count h.starts]

/-- The next line starts behind the newline that ends a line, if one does. -/
theorem next_eq (h : IsLine text number before line after) :
    (lineStarts text)[before.count '\n' + 1]? =
      if after = [] then none else some (byteCount before + byteCount line + 1) := by
  -- The first entry that what is before the line does not have.
  rw [h.split, List.append_assoc, lineStarts_append, ← length_lineStarts,
    List.getElem?_append_right (Nat.le_refl _), Nat.sub_self, newlineEnds_append,
    newlineEnds_of_unbroken _ h.unbroken, List.nil_append]
  cases after with
  | nil => rfl
  | cons c after =>
    cases h.ends c rfl
    rfl

end IsLine

/-! ## Slices -/

/-- What ends before a slice begins is passed. -/
theorem sliceFrom_before {here start stop : Nat} {rest : List Char}
    (h : here + byteCount before ≤ start) :
    sliceFrom here start stop (before ++ rest) =
      sliceFrom (here + byteCount before) start stop rest := by
  induction before generalizing here with
  | nil => rfl
  | cons c before ih =>
    have hsize := c.utf8Size_pos
    rw [byteCount] at h
    have hhere : here < start := by omega
    rw [List.cons_append, sliceFrom, if_pos hhere, ih (by omega), byteCount, Nat.add_assoc]

/-- A slice is taken up to its end. -/
theorem sliceFrom_line {here start stop : Nat} (hstart : start ≤ here)
    (hstop : stop = here + byteCount line) :
    sliceFrom here start stop (line ++ after) = line := by
  induction line generalizing here with
  | nil =>
    cases after with
    | nil => rfl
    | cons c after =>
      have hhere : ¬here < stop := by rw [hstop]; exact Nat.lt_irrefl _
      rw [List.nil_append, sliceFrom, if_neg (Nat.not_lt.2 hstart), if_neg hhere]
  | cons c line ih =>
    have hsize := c.utf8Size_pos
    rw [byteCount, ← Nat.add_assoc] at hstop
    have hhere : here < stop := by omega
    rw [List.cons_append, sliceFrom, if_neg (Nat.not_lt.2 hstart), if_pos hhere,
      ih (by omega) hstop]

/-- The slice between two offsets is the text that stands there. -/
theorem slice_eq (before line after : List Char) :
    slice (before ++ line ++ after) (byteCount before) (byteCount before + byteCount line) =
      line := by
  rw [slice, List.append_assoc, sliceFrom_before (Nat.zero_add _).le, Nat.zero_add,
    sliceFrom_line (Nat.le_refl _) rfl]

/-- Removing carriage returns at the end. -/
theorem dropReturns_eq (line : List Char) : dropReturns line = line.rdropWhile (· = '\r') := rfl

/-! ## Offsets between characters -/

/-- The number of bytes before a rest of a text is an offset between two characters. -/
theorem isValid_byteCount {text : String} {rest : List Char} (h : text.toList = before ++ rest) :
    String.Pos.Raw.IsValid text ⟨byteCount before⟩ := by
  refine String.Pos.Raw.isValid_iff_exists_append.2
    ⟨String.ofList before, String.ofList rest, ?_, ?_⟩
  · rw [← String.ofList_append, ← h, String.ofList_toList]
  · refine String.Pos.Raw.ext ?_
    show _ = (String.ofList before).utf8ByteSize
    rw [utf8ByteSize_eq, String.toList_ofList]

/-- The bytes between the offsets of a line are those of the line. -/
theorem IsLine.bytes_eq {text : String} (h : IsLine text.toList number before line after) :
    ((bytes text).take (byteCount before + byteCount line)).drop (byteCount before) =
      bytes (String.ofList line) := by
  rw [bytes_eq_flatMap, h.split, List.flatMap_append, List.flatMap_append, bytes_eq_flatMap,
    String.toList_ofList, List.take_left', List.drop_left']
  · exact length_flatMap_utf8EncodeChar before
  · rw [List.length_append, length_flatMap_utf8EncodeChar, length_flatMap_utf8EncodeChar]

/-! ## Pieces between newlines -/

/-- A text has one line more than newlines. -/
theorem length_splitOn_newline (text : List Char) :
    (text.splitOn '\n').length = text.count '\n' + 1 := by
  induction text with
  | nil => rfl
  | cons c rest ih =>
    rw [List.splitOn, List.splitOnP_cons_eq_if_modifyHead]
    by_cases hc : c = '\n'
    · rw [if_pos (beq_iff_eq.2 hc), List.length_cons, hc, List.count_cons_self]
      exact congrArg (· + 1) ih
    · rw [if_neg (mt beq_iff_eq.1 hc), List.length_modifyHead, List.count_cons_of_ne hc]
      exact ih

/-- There is nothing before the first line. -/
theorem IsLine.before_eq_nil (h : IsLine text 1 before line after) : before = [] := by
  have hcount : before.count '\n' = 0 := by
    have hnumber := h.number_eq
    omega
  rcases List.eq_nil_or_concat before with hnil | ⟨init, last, rfl⟩
  · exact hnil
  · cases h.starts last (by simp)
    simp at hcount

/-- Every piece between newlines is a line of the text. -/
theorem isLine_of_piece {index : Nat} {piece : List Char}
    (h : (text.splitOn '\n')[index]? = some piece) :
    ∃ before after, IsLine text (index + 1) before piece after := by
  induction text generalizing index piece with
  | nil =>
    cases index with
    | zero =>
      cases h
      exact ⟨[], [], rfl, rfl, by simp, by simp, by simp⟩
    | succ index => cases h
  | cons c rest ih =>
    rw [List.splitOn, List.splitOnP_cons_eq_if_modifyHead] at h
    by_cases hc : c = '\n'
    · subst hc
      rw [if_pos (beq_self_eq_true '\n')] at h
      cases index with
      | zero =>
        cases h
        exact ⟨[], '\n' :: rest, rfl, rfl, by simp, by simp, by simp⟩
      | succ index =>
        obtain ⟨before, after, hline⟩ := ih h
        exact ⟨'\n' :: before, after, hline.newline⟩
    · rw [if_neg (mt beq_iff_eq.1 hc), List.getElem?_modifyHead] at h
      -- The character belongs to the first piece and stands before all others.
      cases index with
      | zero =>
        obtain ⟨piece, hpiece, rfl⟩ := Option.map_eq_some_iff.1 h
        obtain ⟨before, after, hline⟩ := ih hpiece
        cases hline.before_eq_nil
        exact ⟨[], after, hline.grow hc⟩
      | succ index =>
        obtain ⟨before, after, hline⟩ := ih h
        refine ⟨c :: before, after, hline.grow_before hc ?_⟩
        rintro rfl
        exact absurd hline.number_eq (by simp)

end Text

namespace SourceText

variable {source : SourceText} {number : UInt32} {before line after : List Char}

/-- The number of lines is one more than that of newlines. -/
theorem lineCount_eq (source : SourceText) :
    source.lineCount = 1 + source.text.toList.count '\n' := by
  rw [lineCount, starts, Text.length_lineStarts, Nat.add_comm]

/-- A line is found between the bytes before it and those up to its end. -/
theorem extent?_eq (h : Text.IsLine source.text.toList number.toNat before line after) :
    source.extent? number =
      some (Text.byteCount before, Text.byteCount before + Text.byteCount line) := by
  unfold extent?
  rw [h.number_eq]
  simp only [starts, h.start_eq, h.next_eq, Option.map_some]
  cases after with
  -- No newline ends the last line: it ends with the text.
  | nil => simp [h.split]
  | cons c after => rfl

/-- There are no offsets for a number that no line has. -/
theorem extent?_eq_none (h : number = 0 ∨ source.lineCount < number.toNat) :
    source.extent? number = none := by
  unfold extent?
  split
  · rfl
  · next index hindex =>
    have hcount : source.starts.length ≤ index := by
      rcases h with rfl | h
      · cases hindex
      · exact Nat.le_of_lt_succ (hindex ▸ h)
    rw [List.getElem?_eq_none hcount, Option.map_none]

/-- Each number from one to the number of lines has a piece between newlines, which is a line. -/
theorem exists_piece (hpos : number ≠ 0) (hle : number.toNat ≤ source.lineCount) :
    ∃ piece before after,
      (source.text.toList.splitOn '\n')[number.toNat - 1]? = some piece ∧
        Text.IsLine source.text.toList number.toNat before piece after := by
  have hnumber : 0 < number.toNat :=
    Nat.pos_of_ne_zero fun hzero => hpos (UInt32.toNat_inj.1 hzero)
  have hlt : number.toNat - 1 < (source.text.toList.splitOn '\n').length := by
    rw [Text.length_splitOn_newline, Nat.add_comm, ← lineCount_eq]
    omega
  have hpiece := List.getElem?_eq_getElem hlt
  obtain ⟨before, after, hline⟩ := Text.isLine_of_piece hpiece
  rw [Nat.sub_add_cancel hnumber] at hline
  exact ⟨_, before, after, hpiece, hline⟩

/-- A line is shown without the carriage returns at its end. -/
theorem line?_eq (h : Text.IsLine source.text.toList number.toNat before line after) :
    source.line? number = some (String.ofList (line.rdropWhile (· = '\r'))) := by
  rw [line?, extent?_eq h, Option.map_some, h.split, Text.slice_eq, Text.dropReturns_eq]

/-- The line of a number is found exactly for the numbers from one to the number of lines, of which
there is one more than newlines. It is the piece of the text with that number between newlines,
without the carriage returns at its end. The offsets it is found by are in order and within the
text, cut no character, and the bytes between them are those of the piece. -/
theorem line?_finds_piece (source : SourceText) (number : UInt32) :
    source.lineCount = 1 + source.text.toList.count '\n' ∧
      (source.line? number = none ↔ number = 0 ∨ source.lineCount < number.toNat) ∧
      (number ≠ 0 → number.toNat ≤ source.lineCount →
        ∃ piece start stop,
          (source.text.toList.splitOn '\n')[number.toNat - 1]? = some piece ∧
          source.line? number = some (String.ofList (piece.rdropWhile (· = '\r'))) ∧
          source.extent? number = some (start, stop) ∧
          start ≤ stop ∧ stop ≤ source.text.utf8ByteSize ∧
          String.Pos.Raw.IsValid source.text ⟨start⟩ ∧
          String.Pos.Raw.IsValid source.text ⟨stop⟩ ∧
          ((Text.bytes source.text).take stop).drop start =
            Text.bytes (String.ofList piece)) := by
  refine ⟨source.lineCount_eq, ⟨fun hnone => ?_, fun h => ?_⟩, fun hpos hle => ?_⟩
  · by_contra h
    rw [not_or, Nat.not_lt] at h
    obtain ⟨piece, before, after, _, hline⟩ := exists_piece h.1 h.2
    rw [line?_eq hline] at hnone
    cases hnone
  · rw [line?, extent?_eq_none h, Option.map_none]
  · obtain ⟨piece, before, after, hpiece, hline⟩ := exists_piece hpos hle
    have hsplit := hline.split
    refine ⟨piece, _, _, hpiece, line?_eq hline, extent?_eq hline, Nat.le_add_right _ _, ?_, ?_, ?_,
      hline.bytes_eq⟩
    · rw [Text.utf8ByteSize_eq, hsplit, Text.byteCount_append, Text.byteCount_append]
      exact Nat.le_add_right _ _
    · rw [List.append_assoc] at hsplit
      exact Text.isValid_byteCount hsplit
    · rw [← Text.byteCount_append]
      exact Text.isValid_byteCount hsplit

/-- The last line ends with the text, and a line may be made of carriage returns alone. -/
example : let source : SourceText := ⟨"", "é\r\n\r\r\n"⟩
    [1, 2, 3, 4].map source.line? = [some "é", some "", some "", none] := by rfl

end SourceText

end PatchCompiler
