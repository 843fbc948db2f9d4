import Mathlib.Data.List.Basic

/-! # Trees of words

The text format of modules is made of words, quoted texts and parenthesised lists. `Sexp.read` reads a
text character by character, with the lists that are open on a stack. `Reads` is the law by which
texts are put together from parts: what a part means does not depend on what has been read before it,
and two words have to be kept apart. -/

namespace PatchCompiler

/-- A tree of words. -/
inductive Sexp where
  /-- A word. -/
  | atom (text : String)
  /-- A quoted text. -/
  | str (text : String)
  /-- A parenthesised list. -/
  | list (items : List Sexp)

namespace Sexp

/-- Whether a character may stand in a word. -/
def isWordChar (c : Char) : Bool := c.isAlphanum || "!#$%&'*+-./:<=>?@\\^_`|~".toList.contains c

/-- Whether a character may stand for itself in a quoted text. -/
def isTextChar (c : Char) : Bool := c ≠ '"' && c ≠ '\\' && 32 ≤ c.toNat && c.toNat ≠ 127

/-- The character that a letter stands for behind a backslash in a quoted text. Codes of bytes and of
characters are not read. -/
def unescape? : Char → Option Char
  | 't' => some '\t'
  | 'n' => some '\n'
  | 'r' => some '\r'
  | '"' => some '"'
  | '\'' => some '\''
  | '\\' => some '\\'
  | _ => none

/-- What a reader is in the middle of, with the characters of it, the last one first. -/
inductive Mode where
  /-- Nothing. -/
  | blank
  /-- A word. -/
  | word (chars : List Char)
  /-- A quoted text. -/
  | quoted (chars : List Char)
  /-- A quoted text, behind a backslash. -/
  | escape (chars : List Char)

/-- A reader in the middle of a text. -/
structure Reader where
  /-- Items of the lists around the one that is read, the innermost list and the last item first. -/
  outer : List (List Sexp)
  /-- Items of the list that is read, the last one first. -/
  items : List Sexp
  /-- What is not complete yet. -/
  mode : Mode

namespace Reader

/-- Add an item. -/
def push (r : Reader) (x : Sexp) : Reader := ⟨r.outer, x :: r.items, .blank⟩

/-- Complete a word. -/
def flush (r : Reader) : Reader :=
  match r.mode with
  | .word chars => r.push (.atom (.ofList chars.reverse))
  | _ => r

/-- Read a character that is not part of a word. -/
def delimit (r : Reader) (c : Char) : Option Reader :=
  if c = '(' then some ⟨r.items :: r.outer, [], .blank⟩
  else if c = ')' then
    match r.outer with
    -- nothing is open that could be closed
    | [] => none
    | items :: outer => some ⟨outer, .list r.items.reverse :: items, .blank⟩
  else if c = '"' then some { r with mode := .quoted [] }
  else if c = ' ' ∨ c = '\n' ∨ c = '\t' ∨ c = '\r' then some r
  else none

/-- Read a character. -/
def step (r : Reader) (c : Char) : Option Reader :=
  match r.mode with
  | .blank => if isWordChar c then some { r with mode := .word [c] } else r.delimit c
  | .word chars =>
    -- a word ends with the first character that is not part of it
    if isWordChar c then some { r with mode := .word (c :: chars) } else r.flush.delimit c
  | .quoted chars =>
    if c = '"' then some (r.push (.str (.ofList chars.reverse)))
    else if c = '\\' then some { r with mode := .escape chars }
    else if isTextChar c then some { r with mode := .quoted (c :: chars) }
    else none
  | .escape chars => (unescape? c).map fun d => { r with mode := .quoted (d :: chars) }

/-- Read the characters of a text. -/
def run (r : Reader) (text : String) : Option Reader := text.toList.foldlM step r

/-- What has been read at the end of a text, if everything is complete. -/
def finish (r : Reader) : Option (List Sexp) :=
  match r.flush with
  -- all lists are closed, and no quoted text is open
  | ⟨[], items, .blank⟩ => some items.reverse
  | _ => none

end Reader

/-- Read a text. -/
def read (text : String) : Option (List Sexp) :=
  (Reader.run ⟨[], [], .blank⟩ text).bind Reader.finish

/-! ## Texts that are put together -/

/-- Wherever it stands, a text adds items to the list that is read, once its last word is complete. -/
def Reads (text : String) (xs : List Sexp) : Prop :=
  ∀ outer items, ∃ r, Reader.run ⟨outer, items, .blank⟩ text = some r ∧
    r.flush = ⟨outer, xs.reverse ++ items, .blank⟩

/-- A text does not begin with a word, so that it may follow one directly. -/
def Delimited (text : String) : Prop := ∀ c ∈ text.toList.head?, isWordChar c = false

/-- Whether a text begins with a word can be decided. -/
instance (text : String) : Decidable (Delimited text) := Option.decidableForallMem text.toList.head?

/-- A text that begins with one that does not begin with a word. -/
theorem Delimited.append {t : String} (h : Delimited t) (hne : t ≠ "") (u : String) :
    Delimited (t ++ u) := by
  intro c hc
  refine h c ?_
  rw [String.toList_append] at hc
  -- the first character of the whole is that of the first text
  cases ht : t.toList with
  | nil => exact absurd (String.toList_eq_nil_iff.1 ht) hne
  | cons d rest =>
    rw [ht] at hc
    exact hc

/-- A text that is read from the start. -/
theorem Reads.read_eq {text : String} {xs : List Sexp} (h : Reads text xs) :
    read text = some xs := by
  obtain ⟨r, hrun, hflush⟩ := h [] []
  rw [read, hrun, Option.bind_some, Reader.finish, hflush]
  simp

namespace Reader

/-- A word that is complete stays so. -/
theorem flush_flush (r : Reader) : r.flush.flush = r.flush := by
  obtain ⟨outer, items, mode⟩ := r
  cases mode <;> rfl

/-- A character that is not part of a word completes the word before it. -/
theorem step_flush {r : Reader} {c : Char} (hc : isWordChar c = false)
    (hmode : r.flush.mode = .blank) : r.flush.step c = r.step c := by
  obtain ⟨outer, items, mode⟩ := r
  cases mode with
  | blank => rfl
  | word chars => simp [step, flush, push, hc]
  -- a quoted text does not end by itself
  | quoted chars => cases hmode
  | escape chars => cases hmode

/-- A text is read in parts. -/
theorem run_append (r : Reader) (t u : String) : r.run (t ++ u) = (r.run t).bind (·.run u) := by
  rw [run, String.toList_append, List.foldlM_append]
  rfl

/-- A text of one character. -/
theorem run_ofList_singleton (r : Reader) (c : Char) : r.run (.ofList [c]) = r.step c := by
  rw [run, String.toList_ofList, List.foldlM_cons]
  exact bind_pure _

/-- A text that does not begin with a word completes the word before it. -/
theorem run_flush {r r' : Reader} {u : String} (hdelimited : Delimited u)
    (hmode : r.flush.mode = .blank) (hrun : r.flush.run u = some r') :
    ∃ r'', r.run u = some r'' ∧ r''.flush = r'.flush := by
  unfold run Delimited at *
  -- without a character nothing is completed, but then completing it later is the same
  cases hu : u.toList with
  | nil =>
    rw [hu] at hrun
    cases hrun
    exact ⟨r, rfl, r.flush_flush.symm⟩
  | cons c rest =>
    rw [hu] at hrun hdelimited
    rw [List.foldlM_cons, step_flush (hdelimited c rfl) hmode] at hrun
    exact ⟨r', hrun, rfl⟩

end Reader

namespace Reads

variable {t u : String} {xs ys : List Sexp}

/-- An empty text adds nothing. -/
theorem nil : Reads "" [] := fun _ _ => ⟨_, rfl, rfl⟩

/-- One text behind another. -/
theorem append (h : Reads t xs) (h' : Reads u ys) (hdelimited : Delimited u) :
    Reads (t ++ u) (xs ++ ys) := by
  intro outer items
  obtain ⟨r, hrun, hflush⟩ := h outer items
  obtain ⟨r', hrun', hflush'⟩ := h' outer (xs.reverse ++ items)
  -- the second text is read as if the last word of the first one had been completed
  rw [← hflush] at hrun'
  obtain ⟨r'', hrest, hend⟩ := Reader.run_flush hdelimited (by rw [hflush]) hrun'
  refine ⟨r'', ?_, ?_⟩
  · rw [Reader.run_append, hrun]
    exact hrest
  · rw [hend, hflush', List.reverse_append, List.append_assoc]

/-- Characters that leave the mode as it is are gathered. -/
theorem foldlM_gather {outer : List (List Sexp)} {items : List Sexp} (mode : List Char → Mode)
    (rest chars : List Char)
    (h : ∀ c ∈ rest, ∀ chars, Reader.step ⟨outer, items, mode chars⟩ c
      = some ⟨outer, items, mode (c :: chars)⟩) :
    rest.foldlM Reader.step ⟨outer, items, mode chars⟩
      = some ⟨outer, items, mode (rest.reverse ++ chars)⟩ := by
  induction rest generalizing chars with
  | nil => rfl
  | cons c rest ih =>
    rw [List.foldlM_cons, h c List.mem_cons_self chars, List.reverse_cons, List.append_assoc]
    exact ih (c :: chars) fun d hd => h d (List.mem_cons_of_mem _ hd)

/-- A word. -/
theorem word (hne : t ≠ "") (h : ∀ c ∈ t.toList, isWordChar c = true) : Reads t [.atom t] := by
  intro outer items
  cases ht : t.toList with
  | nil => exact absurd (String.toList_eq_nil_iff.1 ht) hne
  | cons c rest =>
    rw [ht] at h
    have hstep : Reader.step ⟨outer, items, .blank⟩ c = some ⟨outer, items, .word [c]⟩ :=
      if_pos (h c List.mem_cons_self)
    refine ⟨⟨outer, items, .word (rest.reverse ++ [c])⟩, ?_, ?_⟩
    · rw [Reader.run, ht, List.foldlM_cons, hstep]
      -- the other characters go on with the word
      exact foldlM_gather .word rest [c] fun d hd _ => if_pos (h d (List.mem_cons_of_mem _ hd))
    · have htext : String.ofList (rest.reverse ++ [c]).reverse = t := by
        rw [List.reverse_append, List.reverse_reverse, ← String.ofList_toList (s := t), ht]
        rfl
      simp only [Reader.flush, Reader.push, htext]
      rfl

/-- A character that stands for itself is added to a quoted text. -/
theorem step_quoted {outer : List (List Sexp)} {items : List Sexp} {c : Char}
    (hc : isTextChar c = true) (chars : List Char) :
    Reader.step ⟨outer, items, .quoted chars⟩ c = some ⟨outer, items, .quoted (c :: chars)⟩ := by
  have hplain : c ≠ '"' ∧ c ≠ '\\' := by
    unfold isTextChar at hc
    simp only [Bool.and_eq_true, decide_eq_true_eq] at hc
    exact hc.1.1
  simp [Reader.step, hplain, hc]

/-- A quoted text. -/
theorem quoted (h : ∀ c ∈ t.toList, isTextChar c = true) :
    Reads ("\"" ++ t ++ "\"") [.str t] := by
  intro outer items
  refine ⟨⟨outer, .str t :: items, .blank⟩, ?_, rfl⟩
  have hopen : Reader.run ⟨outer, items, .blank⟩ "\"" = some ⟨outer, items, .quoted []⟩ := rfl
  have htext : Reader.run ⟨outer, items, .quoted []⟩ t
      = some ⟨outer, items, .quoted (t.toList.reverse ++ [])⟩ :=
    foldlM_gather .quoted _ _ fun c hc => step_quoted (h c hc)
  rw [Reader.run_append, Reader.run_append, hopen, Option.bind_some, htext, Option.bind_some]
  refine (Reader.run_ofList_singleton _ '"').trans ?_
  simp [Reader.step, Reader.push]

/-- A list. -/
theorem list (h : Reads t xs) : Reads ("(" ++ t ++ ")") [.list xs] := by
  intro outer items
  -- the items of the list are read with those before it put aside
  obtain ⟨r, hrun, hflush⟩ := h (items :: outer) []
  have hopen : Reader.run ⟨outer, items, .blank⟩ "(" = some ⟨items :: outer, [], .blank⟩ := rfl
  have hclose : Reader.run ⟨items :: outer, xs.reverse ++ [], .blank⟩ ")"
      = some ⟨outer, .list (xs.reverse ++ []).reverse :: items, .blank⟩ := rfl
  -- the bracket completes the last word of the list
  rw [← hflush] at hclose
  obtain ⟨r', hrest, hend⟩ := Reader.run_flush (by decide) (by rw [hflush]) hclose
  refine ⟨r', ?_, ?_⟩
  · rw [Reader.run_append, Reader.run_append, hopen, Option.bind_some, hrun]
    exact hrest
  · rw [hend]
    simp [Reader.flush]

end Reads

end Sexp

end PatchCompiler
