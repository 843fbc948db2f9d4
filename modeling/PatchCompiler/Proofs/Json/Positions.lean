import Mathlib.Data.List.Basic
import PatchCompiler.Json.Skip
import PatchCompiler.Proofs.Source.Lines

/-! # Where readers are in a text

A reader that has passed some characters has counted their bytes: what it has counted and the bytes
that are left make up the text. `Stays` says so of a reader, and that a problem it reports has an
offset within the text. A problem with the contents of a container may be without an offset until
the container supplies one; `Stays true` rules that out. -/

namespace PatchCompiler

namespace Json

variable {α β : Type} {placed : Bool}

/-- The offset at which the text ends. -/
def Cursor.stop (cursor : Cursor) : Nat := cursor.offset + Text.byteCount cursor.rest

/-- A fault is reported within a text that ends at an offset; without a place of its own only where
that is allowed. -/
def Fault.Lies (placed : Bool) (stop : Nat) (fault : Fault) : Prop :=
  match fault.offset with
  | some offset => offset ≤ stop
  | none => placed = false

/-- A fault that gets its place from a cursor of the same text. -/
theorem Fault.Lies.place {fault : Fault} {stop : Nat} (h : fault.Lies false stop) {cursor : Cursor}
    (hcursor : cursor.stop = stop) : (fault.place cursor.offset).Lies placed stop := by
  obtain ⟨problem, offset⟩ := fault
  cases offset with
  | some offset => exact h
  | none =>
    rw [← hcursor]
    exact Nat.le_add_right cursor.offset _

/-- The result of reading some of a text that ends at an offset: what is left ends there too, and a
fault is reported within the text. -/
def Ends (placed : Bool) (stop : Nat) : EStateM.Result Fault Cursor α → Prop
  | .ok _ after => after.stop = stop
  | .error fault after => after.stop = stop ∧ fault.Lies placed stop

/-- A reader stays within the text. -/
def Stays (placed : Bool) (reader : Reader α) : Prop :=
  ∀ cursor, Ends placed cursor.stop (reader cursor)

/-- A reader is followed by another one, which begins where the first one has ended. -/
theorem Ends.bind {reader : Reader α} {next : α → Reader β} {cursor : Cursor}
    (h : Ends placed cursor.stop (reader cursor))
    (hnext : ∀ a after, reader cursor = .ok a after → after.stop = cursor.stop →
      Ends placed after.stop (next a after)) :
    Ends placed cursor.stop ((reader >>= next) cursor) := by
  show Ends placed cursor.stop (EStateM.bind reader next cursor)
  unfold EStateM.bind
  cases hrun : reader cursor with
  | error fault after =>
    rw [hrun] at h
    exact h
  | ok a after =>
    rw [hrun] at h
    have hafter := hnext a after hrun h
    rwa [h] at hafter

namespace Stays

variable {reader : Reader α}

/-- Readers in turn stay within the text if each one does. -/
theorem bind {next : α → Reader β} (h : Stays placed reader)
    (hnext : ∀ a, Stays placed (next a)) : Stays placed (reader >>= next) :=
  fun cursor => (h cursor).bind fun a after _ _ => hnext a after

/-- A result stays within the text. -/
theorem pure (a : α) : Stays placed (Pure.pure a : Reader α) := fun _ => rfl

/-- A reader whose value is changed stays within the text. -/
theorem map {f : α → β} (h : Stays placed reader) : Stays placed (f <$> reader) := by
  rw [map_eq_pure_bind]
  exact h.bind fun a => pure (f a)

/-- A reader that depends on a condition stays within the text if both of its branches do. -/
theorem ite {c : Prop} [Decidable c] {first second : Reader α} (h₁ : Stays placed first)
    (h₂ : Stays placed second) : Stays placed (if c then first else second) := by
  split
  · exact h₁
  · exact h₂

/-- What comes next depends on where the reader is. -/
theorem get_from {next : Cursor → Reader α}
    (h : ∀ cursor, Ends placed cursor.stop (next cursor cursor)) : Stays placed (get >>= next) := h

/-- Something is read only in some cases, and reading goes on in all. -/
theorem ite_then {c : Prop} [Decidable c] {first : Reader Unit} {next : Unit → Reader α}
    (h : Stays placed first) (hnext : ∀ u, Stays placed (next u)) :
    Stays placed (if c then first >>= next else next ()) :=
  ite (h.bind hnext) (hnext ())

/-! ## Single characters -/

/-- A look at the next character stays within the text. -/
theorem peek : Stays placed Json.peek := fun _ => rfl

/-- A count of what is left stays within the text. -/
theorem enough : Stays placed Json.enough := fun _ => rfl

/-- Taking a character stays within the text. -/
theorem eat : Stays placed Json.eat := by
  rintro ⟨rest, offset⟩
  cases rest with
  | nil => rfl
  | cons c rest => exact Nat.add_assoc offset c.utf8Size _

/-- A problem at the cursor is reported within the text. -/
theorem fail (problem : Problem) : Stays placed (Json.fail problem : Reader α) :=
  fun cursor => ⟨rfl, Nat.le_add_right cursor.offset _⟩

/-- A problem at the next character is reported within the text. -/
theorem failNext (problem : Problem) : Stays placed (Json.failNext problem : Reader α) := by
  rintro ⟨rest, offset⟩
  refine ⟨rfl, ?_⟩
  cases rest with
  | nil => exact Nat.le_refl _
  | cons c rest =>
    show offset + 1 ≤ offset + (c.utf8Size + Text.byteCount rest)
    have hsize := c.utf8Size_pos
    omega

/-- A problem without a place may be reported where none is asked for. -/
theorem failUnplaced (problem : Problem) : Stays false (Json.failUnplaced problem : Reader α) :=
  fun _ => ⟨rfl, rfl⟩

end Stays

/-- Characters that take one byte each are counted by their number. -/
theorem stop_of_dropWhile {test : Char → Bool} (htest : ∀ c, test c = true → c.utf8Size = 1)
    (rest : List Char) (offset : Nat) :
    (Cursor.mk (rest.dropWhile test) (offset + (rest.takeWhile test).length)).stop =
      (Cursor.mk rest offset).stop := by
  have hcount : Text.byteCount (rest.takeWhile test) = (rest.takeWhile test).length := by
    induction rest with
    | nil => rfl
    | cons c rest ih =>
      by_cases hc : test c = true
      · simp [hc, Text.byteCount, htest c hc, ih, Nat.add_comm]
      · simp [hc, Text.byteCount]
  show offset + (rest.takeWhile test).length + Text.byteCount (rest.dropWhile test) =
    offset + Text.byteCount rest
  rw [Nat.add_assoc, ← hcount, ← Text.byteCount_append, List.takeWhile_append_dropWhile]

/-- A blank is one byte. -/
theorem utf8Size_of_isBlank (c : Char) (h : isBlank c = true) : c.utf8Size = 1 := by
  simp only [isBlank, Bool.or_eq_true, decide_eq_true_eq] at h
  rcases h with ((rfl | rfl) | rfl) | rfl <;> rfl

/-- A digit is one byte. -/
theorem utf8Size_of_isDigit (c : Char) (h : c.isDigit = true) : c.utf8Size = 1 := by
  simp only [Char.isDigit, Bool.and_eq_true, decide_eq_true_eq] at h
  exact Char.utf8Size_eq_one_iff.2 (UInt32.le_trans h.2 (by decide))

namespace Stays

/-- Skipping blanks stays within the text. -/
theorem skipBlanks : Stays placed Json.skipBlanks :=
  fun cursor => stop_of_dropWhile utf8Size_of_isBlank cursor.rest cursor.offset

/-- A look behind blanks stays within the text. -/
theorem next : Stays placed Json.next := skipBlanks.bind fun _ => peek

/-- A character that is needed is looked for within the text. -/
theorem need : Stays placed Json.need := by
  refine next.bind fun c => ?_
  cases c with
  | some c => exact pure c
  | none => exact failNext _

/-- The rest of a literal is read within the text. -/
theorem expectRest (letters : List Char) : Stays placed (Json.expectRest letters) := by
  induction letters with
  | nil => exact pure ()
  | cons c letters ih =>
    refine peek.bind fun d => ?_
    cases d with
    | none => exact fail _
    | some d => exact ite (eat.bind fun _ => ih) (failNext _)

/-- A literal is read within the text. -/
theorem literal (name : String) : Stays placed (Json.literal name) :=
  eat.bind fun _ => expectRest _

/-- A colon is read within the text. -/
theorem colon : Stays placed Json.colon := by
  refine next.bind fun c => ?_
  split
  · exact eat
  · exact failNext _
  · exact failNext _

/-! ## Containers -/

/-- The end of a list is read within the text. -/
theorem closeList : Stays placed Json.closeList := by
  refine next.bind fun c => ?_
  split
  · exact eat
  · refine eat.bind fun _ => next.bind fun d => ?_
    split <;> exact failNext _
  · exact failNext _
  · exact failNext _

/-- The end of an object is read within the text. -/
theorem closeObject : Stays placed Json.closeObject := by
  refine next.bind fun c => ?_
  split
  · exact eat
  · exact failNext _
  · exact failNext _
  · exact failNext _

/-- A container supplies the offset that a problem with its contents is without. -/
theorem enclosed {contents : Reader α} {close : Reader Unit} (h : Stays false contents)
    (hclose : ∀ {placed}, Stays placed close) : Stays placed (Json.enclosed contents close) := by
  intro cursor
  have hcontents := h cursor
  cases hrun : contents cursor with
  | ok value after =>
    rw [hrun] at hcontents
    have hend := @hclose placed after
    rw [show after.stop = cursor.stop from hcontents] at hend
    simp only [Json.enclosed, hrun]
    cases hrun' : close after <;> rw [hrun'] at hend <;> exact hend
  | error fault after =>
    rw [hrun] at hcontents
    obtain ⟨hafter, hlies⟩ := hcontents
    -- the container is closed after a fault as well, and the fault gets its place from there
    have hend := @hclose true after
    rw [hafter] at hend
    simp only [Json.enclosed, hrun]
    cases hrun' : close after with
    | ok _ last =>
      rw [hrun'] at hend
      exact ⟨hend, hlies.place hend⟩
    | error _ last =>
      rw [hrun'] at hend
      exact ⟨hend.1, hlies.place hend.1⟩

/-- A container is opened within the text if its contents are read there. -/
theorem opening {levels : Nat} {contents : (inner : Nat) → inner < levels → Reader α}
    (h : ∀ inner bound, Stays placed (contents inner bound)) :
    Stays placed (Json.opening levels contents) := by
  cases levels with
  | zero => exact failNext _
  | succ inner => exact eat.bind fun _ => h inner _

/-- A further item is looked for within the text. -/
theorem nextItem (first : Bool) : Stays placed (Json.nextItem first) := by
  refine next.bind fun c => ?_
  split
  · exact failNext _
  · exact pure false
  · refine ite (pure true) (ite ?_ (failNext _))
    refine eat.bind fun _ => next.bind fun d => ?_
    split
    · exact failNext _
    · exact failNext _
    · exact pure true

/-- A further name is looked for within the text. -/
theorem nextName : Stays placed Json.nextName := by
  refine peek.bind fun c => ?_
  split
  · exact pure ()
  · exact failNext _

/-- A further member is looked for within the text. -/
theorem nextMember (first : Bool) : Stays placed (Json.nextMember first) := by
  refine next.bind fun c => ?_
  split
  · exact failNext _
  · exact pure false
  · refine ite (nextName.bind fun _ => pure true) (ite ?_ (failNext _))
    refine eat.bind fun _ => next.bind fun d => ?_
    split
    · exact failNext _
    · exact failNext _
    · exact nextName.bind fun _ => pure true

/-- Items are read within the text if each one is. -/
theorem items {item : Reader α} (h : Stays placed item) (fuel : Nat) (first : Bool) :
    Stays placed (Json.items item fuel first) := by
  induction fuel generalizing first with
  | zero => exact failNext _
  | succ fuel ih =>
    refine (nextItem first).bind fun more => ite ?_ (pure [])
    exact h.bind fun _ => (ih false).bind fun _ => pure _

/-- All items are read within the text if each one is. -/
theorem allItems {item : Reader α} (h : Stays placed item) : Stays placed (Json.allItems item) :=
  enough.bind fun fuel => h.items fuel true

end Stays

/-! ## Strings -/

/-- A hexadecimal digit is one byte. -/
theorem utf8Size_of_hexValue? {c : Char} {n : Nat} (h : hexValue? c = some n) :
    c.utf8Size = 1 := by
  refine Char.utf8Size_eq_one_iff.2 ?_
  unfold hexValue? at h
  split at h
  · next hc => exact UInt32.le_trans hc.2 (by decide)
  · split at h
    · next hc => exact UInt32.le_trans hc.2 (by decide)
    · split at h
      · next hc => exact UInt32.le_trans hc.2 (by decide)
      · cases h

/-- A numbered escape takes six bytes. -/
theorem byteCount_escape {a b c d : Char} {n : Nat} (h : hexQuad? a b c d = some n)
    (rest : List Char) :
    Text.byteCount ('\\' :: 'u' :: a :: b :: c :: d :: rest) = 6 + Text.byteCount rest := by
  simp only [hexQuad?, Option.bind_eq_bind, Option.bind_eq_some_iff] at h
  obtain ⟨_, ha, _, hb, _, hc, _, hd, _⟩ := h
  have hslash : '\\'.utf8Size = 1 := rfl
  have hu : 'u'.utf8Size = 1 := rfl
  simp only [Text.byteCount, hslash, hu, utf8Size_of_hexValue? ha, utf8Size_of_hexValue? hb,
    utf8Size_of_hexValue? hc, utf8Size_of_hexValue? hd]
  omega

/-- The letter of an escape is one byte. -/
theorem utf8Size_of_escaped? {c d : Char} (h : escaped? c = some d) : c.utf8Size = 1 := by
  unfold escaped? at h
  split at h <;> first | rfl | cases h

/-- What is left after a string ends where the text does, or the string is refused within it. -/
def EndsString (stop : Nat) : Except (Problem × Nat) Cursor → Prop
  | .ok after => after.stop = stop
  | .error (_, offset) => offset ≤ stop

/-- A problem after some of the characters. -/
theorem endsString_error {chars : List Char} {n : Nat} (h : n ≤ chars.length) (offset : Nat)
    (problem : Problem) :
    EndsString (offset + Text.byteCount chars) (.error (problem, offset + n)) :=
  Nat.add_le_add_left (Nat.le_trans h (Text.length_le_byteCount chars)) offset

/-- An escape that is too short is refused within the text. -/
theorem endsString_shortQuad (offset : Nat) (chars rest : List Char) :
    EndsString (offset + Text.byteCount (chars ++ rest))
      (.error (shortQuad (offset + Text.byteCount chars) rest)) := by
  rw [Text.byteCount_append, ← Nat.add_assoc, shortQuad]
  split
  · exact Nat.le_refl _
  · next hlong => exact Nat.add_le_add_left (Nat.not_lt.1 hlong) _

/-- A character in front of a string does not change what is left behind it. -/
theorem map_cons (c : Char) (scan : Scan) : (Scan.cons c scan).map Prod.snd = scan.map Prod.snd := by
  cases scan <;> rfl

/-- Reading a string and giving its characters. -/
theorem endsString_scan (offset : Nat) (rest : List Char) :
    EndsString (offset + Text.byteCount rest) ((scan offset rest).map Prod.snd) := by
  fun_induction scan offset rest with
  | case1 offset => exact endsString_error (Nat.zero_le _) offset _
  | case2 offset rest => exact Nat.add_assoc offset 1 _
  | case3 | case4 | case5 | case7 | case9 | case10 | case11 | case12 | case16 | case17 | case18 =>
    exact endsString_error (by simp) _ _
  | case6 offset a b c d high hhigh _ _ e f g h rest low hlow _ ih =>
    rw [map_cons, byteCount_escape hhigh, byteCount_escape hlow, ← Nat.add_assoc, ← Nat.add_assoc]
    exact ih
  | case8 offset a b c d high hhigh _ _ rest =>
    have hcount : Text.byteCount ['\\', 'u', a, b, c, d, '\\', 'u'] = 8 := byteCount_escape hhigh _
    rw [← hcount]
    exact endsString_shortQuad offset _ rest
  | case13 offset a b c d rest n hn _ _ ih =>
    rw [map_cons, byteCount_escape hn, ← Nat.add_assoc]
    exact ih
  | case14 offset rest => exact endsString_shortQuad offset ['\\', 'u'] rest
  | case15 offset c rest _ _ d hescaped ih =>
    rw [map_cons, Text.byteCount, Text.byteCount, utf8Size_of_escaped? hescaped, ← Nat.add_assoc,
      ← Nat.add_assoc]
    exact ih
  | case19 offset c rest _ _ _ _ _ _ ih =>
    rw [map_cons, Text.byteCount, ← Nat.add_assoc]
    exact ih

/-- Passing over a string. -/
theorem endsString_pass (offset : Nat) (rest : List Char) :
    EndsString (offset + Text.byteCount rest) (pass offset rest) := by
  fun_induction pass offset rest with
  | case1 offset => exact endsString_error (Nat.zero_le _) offset _
  | case2 offset rest => exact Nat.add_assoc offset 1 _
  | case3 | case7 | case8 => exact endsString_error (by simp) _ _
  | case4 offset a b c d rest n hn ih =>
    rw [byteCount_escape hn, ← Nat.add_assoc]
    exact ih
  | case5 offset rest => exact endsString_shortQuad offset ['\\', 'u'] rest
  | case6 offset c rest _ _ d hescaped ih =>
    rw [Text.byteCount, Text.byteCount, utf8Size_of_escaped? hescaped, ← Nat.add_assoc,
      ← Nat.add_assoc]
    exact ih
  | case9 offset => exact endsString_error (Nat.zero_le _) offset _
  | case10 offset c rest _ _ _ _ _ _ ih =>
    rw [Text.byteCount, ← Nat.add_assoc]
    exact ih

namespace Stays

/-- A string in quotes is read within the text. -/
theorem quotedString : Stays placed Json.quotedString := by
  refine eat.bind fun _ => get_from fun cursor => ?_
  have hends := endsString_scan cursor.offset cursor.rest
  cases hscan : scan cursor.offset cursor.rest with
  | ok result =>
    rw [hscan] at hends
    exact hends
  | error problem =>
    rw [hscan] at hends
    exact ⟨rfl, hends⟩

/-- A string is skipped within the text. -/
theorem skipString : Stays placed Json.skipString := by
  refine eat.bind fun _ => get_from fun cursor => ?_
  have hends := endsString_pass cursor.offset cursor.rest
  cases hpass : pass cursor.offset cursor.rest with
  | ok after =>
    rw [hpass] at hends
    exact hends
  | error problem =>
    rw [hpass] at hends
    exact ⟨rfl, hends⟩

/-! ## Numbers -/

/-- Digits are read within the text. -/
theorem digits : Stays placed Json.digits :=
  fun cursor => stop_of_dropWhile utf8Size_of_isDigit cursor.rest cursor.offset

/-- A look for a digit stays within the text. -/
theorem atDigit : Stays placed Json.atDigit := by
  refine peek.bind fun c => ?_
  cases c with
  | some c => exact pure _
  | none => exact pure _

/-- The digits of an integer are read within the text. -/
theorem integerDigits : Stays placed Json.integerDigits := by
  refine peek.bind fun c => ?_
  split
  · exact fail _
  · exact eat.bind fun _ => atDigit.bind fun _ => ite (failNext _) (pure _)
  · exact ite digits (failNext _)

/-- The digits of a fraction are read within the text. -/
theorem fractionDigits : Stays placed Json.fractionDigits := by
  refine eat.bind fun _ => atDigit.bind fun _ => ite digits (peek.bind fun c => ?_)
  split <;> exact failNext _

/-- A number out of range is reported within the text. -/
theorem scaled (negative : Bool) (significand : Nat) (power : Int) :
    Stays placed (Json.scaled negative significand power) := by
  unfold Json.scaled
  split
  · exact pure _
  · exact fail _

/-- A look for an exponent stays within the text. -/
theorem atExponent : Stays placed Json.atExponent := peek.bind fun _ => pure _

/-- Digits that do not fit are some of the digits. -/
theorem length_extend_le (bound n : Nat) (run : List Char) :
    (extend bound n run).2.length ≤ run.length := by
  induction run generalizing n with
  | nil => exact Nat.le_refl _
  | cons c run ih =>
    rw [extend]
    split
    · exact Nat.le_succ_of_le (ih _)
    · exact Nat.le_refl _

/-- Digits are counted from the offset at which they begin. -/
theorem offset_of_digits {cursor after : Cursor} {run : List Char}
    (h : Json.digits cursor = .ok run after) : after.offset = cursor.offset + run.length := by
  cases h
  rfl

/-- An exponent is read within the text. -/
theorem exponent (negative : Bool) (significand : Nat) (power : Int) :
    Stays placed (Json.exponent negative significand power) := by
  refine eat.bind fun _ => peek.bind fun sign => peek.bind fun _ => ite_then eat fun _ => ?_
  refine peek.bind fun c => ?_
  cases c with
  | none => exact fail _
  | some c =>
    refine ite (get_from fun cursor => Ends.bind (digits cursor) fun run after hrun _ => ?_)
      (failNext _)
    -- An exponent too large to be read is refused behind the first digit that makes it so.
    by_cases hleft : (extend maxExponent 0 run).2.isEmpty = true
    · simp only [hleft, if_true]
      exact scaled _ _ _ after
    · simp only [hleft]
      by_cases hrange : significand ≠ 0 ∧ ¬sign = some '-'
      · rw [if_pos hrange]
        refine ⟨rfl, ?_⟩
        have hlength := length_extend_le maxExponent 0 run
        have hpos : 0 < (extend maxExponent 0 run).2.length :=
          List.length_pos_iff.2 fun hnil => hleft (List.isEmpty_iff.2 hnil)
        have hoffset := offset_of_digits hrun
        show cursor.offset + (run.length - (extend maxExponent 0 run).2.length) + 1 ≤ after.stop
        unfold Cursor.stop
        omega
      · rw [if_neg hrange]
        exact scaled _ _ _ after

/-- A fraction is read within the text. -/
theorem fraction (negative : Bool) (significand : Nat) (power : Int) :
    Stays placed (Json.fraction negative significand power) :=
  fractionDigits.bind fun _ => atExponent.bind fun _ => ite (exponent _ _ _) (scaled _ _ _)

/-- A number is read within the text. -/
theorem number : Stays placed Json.number := by
  refine peek.bind fun _ => ite_then eat fun _ => ?_
  refine integerDigits.bind fun _ => peek.bind fun _ => ite (fraction _ _ _) ?_
  exact atExponent.bind fun _ => ite (exponent _ _ _) (ite (pure _) (scaled _ _ _))

/-- An integer is skipped within the text. -/
theorem skipInteger : Stays placed Json.skipInteger := by
  refine peek.bind fun c => ?_
  split
  · exact eat.bind fun _ => atDigit.bind fun _ => ite (failNext _) (pure _)
  · exact ite (digits.bind fun _ => pure _) (failNext _)
  · exact failNext _

/-- A fraction is skipped within the text. -/
theorem skipFraction : Stays placed Json.skipFraction :=
  eat.bind fun _ => atDigit.bind fun _ => ite (digits.bind fun _ => pure _) (failNext _)

/-- An exponent is skipped within the text. -/
theorem skipExponent : Stays placed Json.skipExponent :=
  eat.bind fun _ => peek.bind fun _ => ite_then eat fun _ =>
    atDigit.bind fun _ => ite (digits.bind fun _ => pure _) (failNext _)

/-- A number is skipped within the text. -/
theorem skipNumber : Stays placed Json.skipNumber := by
  refine peek.bind fun _ => ite_then eat fun _ => skipInteger.bind fun _ => ?_
  refine peek.bind fun _ => ite_then skipFraction fun _ => ?_
  exact atExponent.bind fun _ => ite skipExponent (pure _)

/-! ## Values nobody wants -/

/-- The name in front of a value is skipped within the text. -/
theorem skipName (bracket : Bracket) : Stays placed bracket.skipName := by
  cases bracket with
  | list => exact pure ()
  | object =>
    refine next.bind fun c => ?_
    split
    · exact skipString.bind fun _ => colon
    · exact failNext _
    · exact failNext _

/-- The ends of containers are skipped within the text. -/
theorem skipEnds (outer : List Bracket) : Stays placed (Json.skipEnds outer) := by
  induction outer with
  | nil => exact pure none
  | cons bracket outer ih =>
    refine next.bind fun c => ?_
    cases c with
    | none => exact failNext _
    | some c =>
      refine ite ?_ (ite (eat.bind fun _ => ih) (failNext _))
      exact eat.bind fun _ => (skipName bracket).bind fun _ => pure _

/-- What begins a container is skipped within the text. -/
theorem skipOpened (bracket : Bracket) (outer : List Bracket) :
    Stays placed (Json.skipOpened bracket outer) := by
  refine eat.bind fun _ => next.bind fun c => ?_
  cases c with
  | none => exact failNext _
  | some c =>
    refine ite (eat.bind fun _ => skipEnds outer) ?_
    exact (skipName bracket).bind fun _ => pure _

/-- One step of skipping stays within the text. -/
theorem skipStep (outer : List Bracket) : Stays placed (Json.skipStep outer) := by
  refine need.bind fun c => ?_
  split
  · exact (literal _).bind fun _ => skipEnds outer
  · exact (literal _).bind fun _ => skipEnds outer
  · exact (literal _).bind fun _ => skipEnds outer
  · exact skipString.bind fun _ => skipEnds outer
  · exact skipOpened .list outer
  · exact skipOpened .object outer
  · exact ite (skipNumber.bind fun _ => skipEnds outer) (failNext _)

/-- Skipping stays within the text, however many steps it takes. -/
theorem skipAll (fuel : Nat) (outer : List Bracket) : Stays placed (Json.skipAll fuel outer) := by
  induction fuel generalizing outer with
  | zero => exact failNext _
  | succ fuel ih =>
    refine (skipStep outer).bind fun left => ?_
    cases left with
    | some left => exact ih left
    | none => exact pure ()

/-- A value is skipped within the text. -/
theorem skipValue : Stays placed Json.skipValue := enough.bind fun fuel => skipAll fuel []

end Stays

end Json

end PatchCompiler
