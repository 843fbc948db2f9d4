import Mathlib.Data.List.TakeWhile
import PatchCompiler.Compile
import PatchCompiler.Proofs.Json.Positions

/-! # Where the text of a program is refused

The readers of typed values stay within the text, and so does the reader of programs. A problem with
the contents of a record, a list or an object is without an offset only up to the next container
around it. Main statement: a text that is no program is refused with one error, at a place of the
text and with the line that the place is on. The text that has as many newlines as 32 bits can count
and nothing else is the only exception: the number of its last line does not fit. -/

namespace PatchCompiler

namespace Json

variable {α β τ : Type} {placed : Bool}

namespace Stays

/-! ## Scalars -/

/-- A value of another type is refused within the text. -/
theorem invalidType (expected : String) : Stays placed (Json.invalidType expected : Reader α) := by
  refine peek.bind fun c => ?_
  split
  · exact (literal _).bind fun _ => fail _
  · exact (literal _).bind fun _ => fail _
  · exact (literal _).bind fun _ => fail _
  · exact quotedString.map.bind fun _ => fail _
  · exact fail _
  · exact fail _
  · exact ite (number.map.bind fun _ => fail _) ((failNext _).bind fun _ => fail _)
  · exact (failNext _).bind fun _ => fail _

/-- An integer between bounds is read within the text. -/
theorem integer (low high : Int) (expected : String) :
    Stays placed (Json.integer low high expected) := by
  refine need.bind fun c => ite (number.bind fun n => ?_) (invalidType _)
  cases n with
  | int n => exact ite (pure n) (fail _)
  | float x => exact fail _

/-- A signed word is read within the text. -/
theorem int32 : Stays placed Json.int32 := (integer _ _ _).bind fun _ => pure _

/-- A word is read within the text. -/
theorem uint32 : Stays placed Json.uint32 := (integer _ _ _).bind fun _ => pure _

/-- A number is read within the text. -/
theorem float : Stays placed Json.float := by
  refine need.bind fun c => ite (number.bind fun n => ?_) (invalidType _)
  cases n with
  | int n => exact pure _
  | float x => exact pure x

/-- A string is read within the text. -/
theorem string : Stays placed Json.string :=
  need.bind fun _ => ite quotedString (invalidType _)

/-- The value that stands for nothing is read within the text. -/
theorem unit : Stays placed Json.unit :=
  need.bind fun _ => ite (literal _) (invalidType _)

/-- A value that may be missing is read within the text if the value is. -/
theorem optional {value : Reader α} (h : Stays placed value) : Stays placed (Json.optional value) :=
  next.bind fun _ => ite ((literal _).bind fun _ => pure none) (h.bind fun _ => pure _)

/-! ## Lists and records -/

/-- A list is read within the text if its items are. -/
theorem list {levels : Nat} {item : (inner : Nat) → inner < levels → Reader α}
    (h : ∀ inner bound, Stays false (item inner bound)) : Stays placed (Json.list levels item) :=
  need.bind fun _ =>
    ite (enclosed (opening fun inner bound => allItems (h inner bound)) closeList) (invalidType _)

/-- The members of a record are read within the text if its fields are. -/
theorem members {fields : List (Field α)} (h : ∀ f ∈ fields, Stays false f.read) (fuel : Nat)
    (first : Bool) (seen : List String) (record : α) :
    Stays false (Json.members fields fuel first seen record) := by
  induction fuel generalizing first seen record with
  | zero => exact failNext _
  | succ fuel ih =>
    refine (nextMember first).bind fun more => ite (quotedString.bind fun name => ?_) (pure _)
    cases hfind : fields.find? (·.name = name) with
    | none => exact colon.bind fun _ => skipValue.bind fun _ => ih false seen record
    | some f =>
      refine ite_then (failUnplaced _) fun _ => colon.bind fun _ => ?_
      exact (h f (List.mem_of_find?_eq_some hfind)).bind fun change => ih false _ _

/-- A record that is written as an object is read within the text if its fields are. -/
theorem objectRecord {fields : List (Field α)} (h : ∀ f ∈ fields, Stays false f.read) (blank : α) :
    Stays false (Json.objectRecord fields blank) := by
  refine enough.bind fun fuel => (members h fuel true [] blank).bind fun result => ?_
  obtain ⟨seen, record⟩ := result
  dsimp only
  split
  · exact failUnplaced _
  · exact pure record

/-- A record that is written as a list is read within the text if its fields are. -/
theorem listRecord {fields : List (Field α)} (h : ∀ f ∈ fields, Stays false f.read)
    (expected : String) (index : Nat) (record : α) :
    Stays false (Json.listRecord expected index fields record) := by
  induction fields generalizing index record with
  | nil => exact pure record
  | cons f rest ih =>
    have hrest := fun index record =>
      ih (fun g hg => h g (List.mem_cons_of_mem f hg)) index record
    refine (nextItem _).bind fun more => ite ?_ (ite (hrest _ _) (failUnplaced _))
    exact (h f List.mem_cons_self).bind fun change => hrest _ _

/-- A record that is refused is refused at a place, whatever is wrong with its fields. -/
theorem record {levels : Nat} {expected : String} {blank : α}
    {fields : (inner : Nat) → inner < levels → List (Field α)}
    (h : ∀ inner bound, ∀ f ∈ fields inner bound, Stays false f.read) :
    Stays placed (Json.record levels expected blank fields) := by
  refine need.bind fun c => ?_
  split
  · exact enclosed (opening fun inner bound => listRecord (h inner bound) _ 0 blank) closeList
  · exact enclosed (opening fun inner bound => objectRecord (h inner bound) blank) closeObject
  · exact invalidType _

/-! ## Choices -/

/-- The name of an alternative is looked up without a look at the text. -/
theorem alternative (names : List (String × τ)) (name : String) :
    Stays placed (Json.alternative names name) := by
  unfold Json.alternative
  split
  · exact pure _
  · exact fail _

/-- A choice is read within the text if each alternative is. -/
theorem choice {levels : Nat} {names : List (String × τ)} {bare : τ → Reader α}
    {data : (inner : Nat) → inner < levels → τ → Reader α} (hbare : ∀ tag, Stays placed (bare tag))
    (hdata : ∀ inner bound tag, Stays placed (data inner bound tag)) :
    Stays placed (Json.choice levels names bare data) := by
  refine next.bind fun c => ?_
  split
  · refine opening fun inner bound => next.bind fun d => ?_
    -- what comes after the name is the same in all three cases
    split
    case' h_1 => refine (failNext _).bind fun _ => ?_
    case' h_2 => refine (failNext _).bind fun _ => ?_
    case' h_3 => refine nextName.bind fun _ => ?_
    all_goals
      refine quotedString.bind fun name => (alternative names name).bind fun tag => ?_
      refine colon.bind fun _ => (hdata inner bound tag).bind fun value => next.bind fun e => ?_
      split
      · exact eat.bind fun _ => pure value
      · exact fail _
      · exact fail _
  · exact quotedString.bind fun name => (alternative names name).bind hbare
  · exact failNext _
  · exact failNext _

/-- A name among some is read within the text. -/
theorem enumeration (levels : Nat) (names : List (String × τ)) :
    Stays placed (Json.enumeration levels names) :=
  choice pure fun _ _ _ => unit.bind fun _ => pure _

/-! ## Records inside records -/

/-- Members of any names are read within the text if their values are. -/
theorem plainMembers {value : Reader Value} (h : Stays placed value) (fuel : Nat) (first : Bool) :
    Stays placed (Json.plainMembers value fuel first) := by
  induction fuel generalizing first with
  | zero => exact failNext _
  | succ fuel ih =>
    refine (nextMember first).bind fun more => ite (quotedString.bind fun name => ?_) (pure [])
    exact colon.bind fun _ => h.bind fun v => (ih false).bind fun _ => pure _

/-- A value of any shape is read within the text. -/
theorem plain (levels : Nat) : Stays placed (Json.plain levels) := by
  -- contents are met without a place of their own, whatever is asked of the value around them
  induction levels using Nat.strongRecOn generalizing placed with
  | ind levels ih =>
    rw [Json.plain]
    refine need.bind fun c => ?_
    split
    · exact (literal _).bind fun _ => pure _
    · exact (literal _).bind fun _ => pure _
    · exact (literal _).bind fun _ => pure _
    · exact quotedString.bind fun _ => pure _
    · refine bind (enclosed (opening fun inner bound => ?_) closeList) fun _ => pure _
      exact allItems (ih inner bound)
    · refine bind (enclosed (opening fun inner bound => ?_) closeObject) fun _ => pure _
      exact enough.bind fun fuel => plainMembers (ih inner bound) fuel true
    · exact ite (number.bind fun _ => pure _) (failNext _)

/-- The members of a record and others are read within the text if its fields and they are. -/
theorem mixedMembers {fields : List (Field α)} {other : Reader Value}
    (h : ∀ f ∈ fields, Stays false f.read) (hother : Stays false other) (fuel : Nat)
    (first : Bool) (seen : List String) (record : α) :
    Stays false (Json.mixedMembers fields other fuel first seen record) := by
  induction fuel generalizing first seen record with
  | zero => exact failNext _
  | succ fuel ih =>
    refine (nextMember first).bind fun more => ite (quotedString.bind fun name => ?_) (pure _)
    cases hfind : fields.find? (·.name = name) with
    | none =>
      refine colon.bind fun _ => hother.bind fun value => (ih false seen record).bind fun _ => ?_
      exact pure _
    | some f =>
      refine ite_then (failUnplaced _) fun _ => colon.bind fun _ => ?_
      exact (h f (List.mem_of_find?_eq_some hfind)).bind fun change => ih false _ _

/-- A record with a flattened one in it is read within the text if its own fields are. -/
theorem flatRecord {levels : Nat} {expected : String} {blank : α}
    {outer : (inner : Nat) → inner < levels → List (Field α)} {inner : List (FlatField α)}
    (h : ∀ level bound, ∀ f ∈ outer level bound, Stays false f.read) :
    Stays placed (Json.flatRecord levels expected blank outer inner) := by
  refine need.bind fun c => ite (enclosed (opening fun level bound => ?_) closeObject)
    (invalidType _)
  refine enough.bind fun fuel =>
    (mixedMembers (h level bound) (plain level) fuel true [] blank).bind fun result => ?_
  obtain ⟨seen, record, others⟩ := result
  dsimp only
  split
  · exact failUnplaced _
  · split
    · exact pure _
    · exact failUnplaced _

/-- A whole document is read within the text if its value is. -/
theorem document {value : Reader α} (h : Stays placed value) :
    Stays placed (Json.document value) := by
  refine h.bind fun result => next.bind fun c => ?_
  cases c with
  | some c => exact failNext _
  | none => exact pure result

/-- A text that is refused is refused at one of its offsets. -/
theorem offset_of_error {value : Reader α} (h : Stays true value) {text : List Char} {fault : Fault}
    {cursor : Cursor} (hrun : Json.document value ⟨text, 0⟩ = .error fault cursor) :
    ∃ offset, fault.offset = some offset ∧ offset ≤ Text.byteCount text := by
  have hends := h.document ⟨text, 0⟩
  rw [hrun] at hends
  obtain ⟨_, hlies⟩ := hends
  unfold Fault.Lies at hlies
  cases hoffset : fault.offset with
  | none =>
    rw [hoffset] at hlies
    cases hlies
  | some offset =>
    rw [hoffset, Cursor.stop, Nat.zero_add] at hlies
    exact ⟨offset, rfl, hlies⟩

end Stays

end Json

/-! ## Programs -/

open Json (Stays)

variable {placed : Bool}

/-- A field is read within the text if its value is. -/
theorem stays_field {α β : Type} {name : String} {presence : Json.Presence} {set : β → α → α}
    {value : Json.Reader β} (h : Stays false value) :
    Stays false (Json.field name presence set value).read := h.map

/-- A kind is read within the text. -/
theorem stays_readKind (levels : Nat) : Stays placed (readKind levels) := .enumeration levels _

/-- A span is read within the text. -/
theorem stays_readSpan (levels : Nat) : Stays placed (readSpan levels) := by
  refine .record fun _ _ => ?_
  simp only [List.forall_mem_cons]
  exact ⟨stays_field .uint32, stays_field .uint32, stays_field .uint32, stays_field .uint32,
    List.forall_mem_nil _⟩

/-- A binding is read within the text. -/
theorem stays_readBinding (levels : Nat) : Stays placed (readBinding levels) := by
  refine .flatRecord fun _ _ => ?_
  simp only [List.forall_mem_singleton]
  exact stays_field .string

/-- A scope is read within the text. -/
theorem stays_readScope (levels : Nat) : Stays placed (readScope levels) := by
  refine .record fun _ _ => ?_
  simp only [List.forall_mem_singleton]
  exact stays_field (.list fun inner _ => stays_readBinding inner)

/-- Two fields are read within the text if both of their values are. -/
theorem stays_readPair {α β : Type} {levels : Nat} {expected : String} {blank : α × β}
    {first second : String} {left : (inner : Nat) → inner < levels → Json.Reader α}
    {right : (inner : Nat) → inner < levels → Json.Reader β}
    (hl : ∀ inner bound, Stays false (left inner bound))
    (hr : ∀ inner bound, Stays false (right inner bound)) :
    Stays placed (readPair levels expected blank first second left right) := by
  refine .record fun inner bound => ?_
  simp only [List.forall_mem_cons]
  exact ⟨stays_field (hl inner bound), stays_field (hr inner bound), List.forall_mem_nil _⟩

/-- An operator with its operands is read within the text if the operands are. -/
theorem stays_readOperation {τ : Type} {levels : Nat} {expected : String}
    {names : List (String × τ)} {blank : τ} {first second : String}
    {expr : (inner : Nat) → inner < levels → Json.Reader (Expr Scope)}
    (h : ∀ inner bound, Stays false (expr inner bound)) :
    Stays placed (readOperation levels expected names blank first second expr) := by
  refine .record fun inner bound => ?_
  simp only [List.forall_mem_cons]
  exact ⟨stays_field (.enumeration inner names), stays_field (h inner bound),
    stays_field (h inner bound), List.forall_mem_nil _⟩

/-- What a node carries stays within the text if the expressions inside it do. -/
theorem stays_readNode {levels : Nat}
    (h : ∀ inner < levels, ∀ placed, Stays placed (readExpr inner)) :
    Stays false (readNode levels) := by
  rw [readNode]
  refine .choice (fun form => .failUnplaced _) fun level hlevel form => ?_
  have hexpr : ∀ inner < level, Stays false (readExpr inner) :=
    fun inner hinner => h inner (Nat.lt_trans hinner hlevel) false
  have hlist (inner : Nat) (hinner : inner ≤ level) :
      Stays false (Json.list inner fun inner _ => readExpr inner) :=
    .list fun inner' bound => hexpr inner' (Nat.lt_of_lt_of_le bound hinner)
  cases form with
  | statements => exact (hlist level (Nat.le_refl _)).map
  | sequence => exact (hlist level (Nat.le_refl _)).map
  | array => exact (hlist level (Nat.le_refl _)).map
  | floatLit => exact Stays.float.map
  | intLit => exact Stays.int32.map
  | ident => exact Stays.string.map
  | neg => exact (h level hlevel false).map
  | function =>
    refine Stays.map (.record fun inner bound => ?_)
    simp only [List.forall_mem_cons]
    exact ⟨stays_field (.list fun _ _ => .string), stays_field (.optional (stays_readKind inner)),
      stays_field (.optional (hexpr inner bound)), stays_field (hexpr inner bound),
      stays_field (stays_readScope inner), List.forall_mem_nil _⟩
  | block =>
    refine Stays.map (.record fun inner bound => ?_)
    simp only [List.forall_mem_cons]
    exact ⟨stays_field (hexpr inner bound), stays_field (stays_readScope inner),
      List.forall_mem_nil _⟩
  | call =>
    exact (stays_readPair (fun _ _ => .string) fun inner bound => hlist inner (Nat.le_of_lt bound)).map
  | binary => exact (stays_readOperation hexpr).map
  | compare => exact (stays_readOperation hexpr).map
  | compound => exact (stays_readOperation hexpr).map
  | step => exact (stays_readPair (fun inner _ => .enumeration inner _) hexpr).map
  | clamp => exact (stays_readPair hexpr hexpr).map
  | assign => exact (stays_readPair hexpr hexpr).map
  | loop => exact (stays_readPair hexpr hexpr).map
  | field => exact (stays_readPair hexpr fun _ _ => .string).map
  | range =>
    refine Stays.map (.record fun inner bound => ?_)
    simp only [List.forall_mem_cons]
    exact ⟨stays_field (.optional (hexpr inner bound)), stays_field (.optional (hexpr inner bound)),
      List.forall_mem_nil _⟩
  | index =>
    refine Stays.map (.record fun inner bound => ?_)
    simp only [List.forall_mem_cons]
    exact ⟨stays_field (hexpr inner bound), stays_field (.optional (hexpr inner bound)),
      List.forall_mem_nil _⟩

/-- An expression is read within the text, at whatever depth it stands. -/
theorem stays_readExpr (levels : Nat) : ∀ placed, Stays placed (readExpr levels) := by
  induction levels using Nat.strongRecOn with
  | ind levels ih =>
    intro placed
    rw [readExpr]
    refine .record fun inner bound => ?_
    simp only [List.forall_mem_cons]
    exact ⟨stays_field (stays_readNode fun level hlevel => ih level (Nat.lt_trans hlevel bound)),
      stays_field (.optional (stays_readKind inner)), stays_field (stays_readSpan inner),
      List.forall_mem_nil _⟩

/-- A program is read within the text. -/
theorem stays_readProgram (levels : Nat) : Stays placed (readProgram levels) := by
  refine .record fun inner bound => ?_
  simp only [List.forall_mem_cons]
  exact ⟨stays_field (stays_readExpr inner false), stays_field (stays_readScope inner),
    List.forall_mem_nil _⟩

/-! ## Reports -/

/-- A text is refused where its reader fails. -/
theorem Json.decode_eq_error {α : Type} {reader : Reader α} {text : String} {e : DecodeError}
    (h : decode reader text = .error e) :
    ∃ fault cursor, document reader ⟨text.toList, 0⟩ = .error fault cursor ∧
      e = ⟨fault.problem, (Text.place text (fault.offset.getD cursor.offset)).1,
        (Text.place text (fault.offset.getD cursor.offset)).2⟩ := by
  unfold decode at h
  cases hrun : document reader ⟨text.toList, 0⟩ with
  | ok result cursor =>
    rw [hrun] at h
    cases h
  | error fault cursor =>
    rw [hrun] at h
    cases h
    exact ⟨fault, cursor, rfl, rfl⟩

/-- A diagnostic is at an offset of a text: on the line with a number, at a column, and it quotes
the line. -/
structure Diagnostic.IsAt (d : Diagnostic) (text : String) (offset number column : Nat) :
    Prop where
  /-- The offset is one of the text. -/
  within : offset ≤ text.utf8ByteSize
  /-- The diagnostic has the line and the column for its place. -/
  span_eq : d.span = .point (.ofNat number) (.ofNat column)
  /-- The number of the line is one more than that of the newlines before the offset. -/
  number_eq : number = 1 + ((Text.bytes text).take offset).count Text.newlineByte
  /-- The column counts the bytes from the start of the line, and the line is quoted as it is
  shown. -/
  quotes : ∃ before line after, Text.IsLine text.toList number before line after ∧
    offset = Text.byteCount before + column ∧ column ≤ Text.byteCount line ∧
    d.sourceLine = String.ofList (Text.shown line after)

/-- The diagnostic of a text that is refused within the text. -/
theorem Diagnostic.isAt_ofDecodeError {file text : String} {problem : Json.Problem} {offset : Nat}
    (h : offset ≤ Text.byteCount text.toList) :
    ∃ number column, (Diagnostic.ofDecodeError file text
      ⟨problem, (Text.place text offset).1, (Text.place text offset).2⟩).IsAt
        text offset number column := by
  obtain ⟨number, before, line, after, hline, low, high⟩ := Text.exists_isLine text.toList h
  refine ⟨number, offset - Text.byteCount before, ?_⟩
  rw [Text.place_eq hline low high]
  refine ⟨?_, rfl, hline.number_eq_bytes low high, before, line, after, hline, ?_, ?_, ?_⟩
  · rw [Text.utf8ByteSize_eq]
    exact h
  · omega
  · omega
  · exact Text.lineAt_eq hline

/-! ## Texts of newlines -/

/-- A text of newlines, as many as are given. -/
def Text.newlines (count : Nat) : String := String.ofList (List.replicate count '\n')

/-- The characters of a text of newlines. -/
theorem Text.toList_newlines (count : Nat) :
    (newlines count).toList = List.replicate count '\n' := String.toList_ofList

/-- A text with as many newlines before one of its lines as it can have bytes has nothing else. -/
theorem Text.IsLine.eq_newlines {text : String} {before line after : List Char}
    {number bound : Nat} (h : IsLine text.toList number before line after)
    (hsize : byteCount text.toList ≤ bound) (hnumber : bound < number) :
    text = newlines bound := by
  have hbefore : before.count '\n' ≤ text.toList.count '\n' := by
    rw [h.split, List.append_assoc, List.count_append]
    exact Nat.le_add_right _ _
  have hcount := List.count_le_length (a := '\n') (l := text.toList)
  have hlength := length_le_byteCount text.toList
  have hlines := h.number_eq
  rw [← String.toList_inj, toList_newlines, List.eq_replicate_iff]
  refine ⟨by omega, fun c hc => ?_⟩
  exact (List.count_eq_length.1 (by omega) c hc).symm

/-- A text that begins with anything but a newline is no text of newlines. -/
theorem Text.ne_newlines {text : String} {count : Nat} (hcount : 0 < count)
    (h : text.toList.head? ≠ some '\n') : text ≠ newlines count := by
  rintro rfl
  rw [toList_newlines, List.head?_replicate, if_neg (by omega)] at h
  exact h rfl

/-- A text of blanks holds no value, which is missed at its end. -/
theorem Json.need_of_blank {text : List Char} (h : ∀ c ∈ text, isBlank c = true) (offset : Nat) :
    need ⟨text, offset⟩ = .error ⟨.endOfValue, some (offset + text.length)⟩
      ⟨[], offset + text.length⟩ := by
  have hskip : skipBlanks ⟨text, offset⟩ = .ok () ⟨[], offset + text.length⟩ := by
    show EStateM.Result.ok () (Cursor.mk (text.dropWhile isBlank) _) = _
    rw [List.dropWhile_eq_nil_iff.2 h, List.takeWhile_eq_self_iff.2 h]
  unfold need next
  simp only [bind, EStateM.bind, hskip]
  rfl

/-- A text of blanks is refused at its end, where a program is missed. -/
theorem Program.decode_of_blank {text : String} (h : ∀ c ∈ text.toList, Json.isBlank c = true) :
    Program.decode text = .error ⟨.endOfValue, (Text.place text text.toList.length).1,
      (Text.place text text.toList.length).2⟩ := by
  have hneed := Json.need_of_blank h 0
  rw [Nat.zero_add] at hneed
  have hrun : Json.document (readProgram Json.maxLevels) ⟨text.toList, 0⟩
      = .error ⟨.endOfValue, some text.toList.length⟩ ⟨[], text.toList.length⟩ := by
    show EStateM.bind (EStateM.bind Json.need _) _ _ = _
    simp only [EStateM.bind, hneed]
  unfold Program.decode Json.decode
  rw [hrun]
  rfl

/-- A newline takes one byte. -/
theorem Text.byteCount_newlines (count : Nat) : byteCount (newlines count).toList = count := by
  rw [toList_newlines]
  induction count with
  | zero => rfl
  | succ count ih =>
    rw [List.replicate_succ, byteCount, ih, utf8Size_newline, Nat.add_comm]

/-- The end of a text of newlines is on the line behind all of them. -/
theorem Text.place_newlines (count : Nat) : place (newlines count) count = (count + 1, 0) := by
  have hline : IsLine (newlines count).toList (count + 1) (List.replicate count '\n') [] [] := by
    rw [toList_newlines]
    refine ⟨by simp, by simp, fun c hc => ?_, by simp, by simp⟩
    exact List.eq_of_mem_replicate (List.mem_of_getLast? hc)
  have hcount := byteCount_newlines count
  rw [toList_newlines] at hcount
  rw [place_eq hline (Nat.le_of_eq hcount) (Nat.le_of_eq hcount.symm), hcount, Nat.sub_self]

/-- A text of newlines is refused on the line behind all of them. -/
theorem parseProgram_newlines (count : Nat) (file : String) :
    ∃ d, parseProgram (Text.newlines count) file = .error (.single d) ∧
      d.span = .point (.ofNat (count + 1)) (.ofNat 0) := by
  have hblank : ∀ c ∈ (Text.newlines count).toList, Json.isBlank c = true := by
    intro c hc
    rw [Text.toList_newlines] at hc
    rw [List.eq_of_mem_replicate hc]
    rfl
  have hdecode := Program.decode_of_blank hblank
  rw [Text.toList_newlines, List.length_replicate, Text.place_newlines] at hdecode
  rw [parseProgram, hdecode]
  exact ⟨_, rfl, rfl⟩

/-- **Refused texts.** A text of fewer than 2 ^ 32 bytes that is no program is refused with one
error, unless it is made of 2 ^ 32 - 1 newlines. The reader has given the error an offset of the
text, and it is reported on the line of that offset, at a column of the line, together with the line
itself; both numbers fit into 32 bits. -/
theorem parseProgram_refused {text file : String} {report : Report}
    (hsize : text.utf8ByteSize < UInt32.size) (htext : text ≠ Text.newlines (UInt32.size - 1))
    (h : parseProgram text file = .error report) :
    ∃ d offset number column,
      report = { errors := [d], warnings := [], totalErrors := 1, totalWarnings := 0 } ∧
      d.code = ⟨100⟩ ∧
      (∃ fault cursor, fault.offset = some offset ∧
        Json.document (readProgram Json.maxLevels) ⟨text.toList, 0⟩ = .error fault cursor) ∧
      d.IsAt text offset number column ∧ d.span.column.toNat = column ∧
      d.span.line.toNat = number := by
  cases hdecode : Program.decode text with
  | ok p =>
    rw [parseProgram, hdecode] at h
    cases h
  | error e =>
    rw [parseProgram, hdecode] at h
    cases h
    obtain ⟨fault, cursor, hrun, rfl⟩ := Json.decode_eq_error hdecode
    obtain ⟨offset, hoffset, hle⟩ := (@stays_readProgram true _).offset_of_error hrun
    rw [hoffset, Option.getD_some]
    obtain ⟨number, column, hat⟩ := Diagnostic.isAt_ofDecodeError hle
    obtain ⟨before, line, after, hline, hcolumn, _⟩ := hat.quotes
    rw [Text.utf8ByteSize_eq] at hsize
    refine ⟨_, offset, number, column, rfl, rfl, ⟨fault, cursor, hoffset, hrun⟩, hat, ?_, ?_⟩
    · rw [hat.span_eq]
      exact UInt32.toNat_ofNat_of_lt' (by omega)
    · rw [hat.span_eq]
      -- so many lines leave no byte of the text for anything but newlines
      refine UInt32.toNat_ofNat_of_lt' (Nat.lt_of_not_le fun hnumber => htext ?_)
      exact hline.eq_newlines (Nat.le_sub_one_of_lt hsize)
        (Nat.lt_of_lt_of_le (Nat.sub_one_lt (by decide)) hnumber)

/-- **A refused text without a place.** The text of 2 ^ 32 - 1 newlines is refused on the line behind
all of them. Its number does not fit into 32 bits, so that the error is reported on line zero, which
no offset is on, and has the span of what stands for no source text. -/
theorem newlines_reported_nowhere :
    (Text.newlines (UInt32.size - 1)).utf8ByteSize < UInt32.size ∧
    ∀ file, ∃ d, parseProgram (Text.newlines (UInt32.size - 1)) file = .error (.single d) ∧
      d.span = .synthetic ∧
      ∀ offset, d.span.line.toNat ≠
        1 + ((Text.bytes (Text.newlines (UInt32.size - 1))).take offset).count Text.newlineByte := by
  refine ⟨?_, fun file => ?_⟩
  · rw [Text.utf8ByteSize_eq, Text.byteCount_newlines]
    decide
  · obtain ⟨d, hparse, hspan⟩ := parseProgram_newlines (UInt32.size - 1) file
    have hsynthetic : d.span = .synthetic := hspan.trans (by decide)
    refine ⟨d, hparse, hsynthetic, fun offset hline => ?_⟩
    rw [hsynthetic] at hline
    have hzero : Span.synthetic.line.toNat = 0 := rfl
    omega

/-- The report of a text that is no program. -/
def refusal? (text file : String) : Option Report :=
  match parseProgram text file with
  | .ok _ => none
  | .error report => some report

/-- The report of a text is what its reading ends with. -/
theorem refusal?_eq_some {text file : String} {report : Report}
    (h : refusal? text file = some report) : parseProgram text file = .error report := by
  unfold refusal? at h
  split at h
  · cases h
  · next hparse =>
    cases h
    exact hparse

/-- The colon after the second of two names is missing. -/
def missingColon : String := "\x7b\"é\":1,\r\n\"ü\" 2\x7d"

/-- It is missed on the second line, whose second character takes two bytes. -/
theorem missingColon_refused : ∃ report, parseProgram missingColon "patch" = .error report ∧
    report.errors.map Diagnostic.span = [.point 2 6] ∧
    report.errors.map Diagnostic.sourceLine = ["\"ü\" 2\x7d"] ∧
    ∃ d offset number column, report.errors = [d] ∧
      d.IsAt missingColon offset number column ∧ d.span.line.toNat = number := by
  have hspan : (refusal? missingColon "patch").map (·.errors.map Diagnostic.span) =
      some [.point 2 6] := by decide +kernel
  have hline : (refusal? missingColon "patch").map (·.errors.map Diagnostic.sourceLine) =
      some ["\"ü\" 2\x7d"] := by decide +kernel
  obtain ⟨report, hreport, hspan⟩ := Option.map_eq_some_iff.1 hspan
  rw [hreport] at hline
  have hparse := refusal?_eq_some hreport
  have htext : missingColon ≠ Text.newlines (UInt32.size - 1) :=
    Text.ne_newlines (by decide) (by decide +kernel)
  obtain ⟨d, offset, number, column, herrors, _, _, hat, _, hnumber⟩ :=
    parseProgram_refused (by decide +kernel) htext hparse
  refine ⟨report, hparse, hspan, Option.some.inj hline, d, offset, number, column, ?_, hat, hnumber⟩
  rw [herrors]

end PatchCompiler
