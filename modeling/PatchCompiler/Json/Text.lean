import PatchCompiler.Json.Cursor

/-! # JSON strings

Strings are read character by character. `scan` reads a string and gives its characters; `pass`
checks a string nobody wants, where escapes need not make up characters. -/

namespace PatchCompiler

namespace Json

/-- Value of a hexadecimal digit. -/
def hexValue? (c : Char) : Option Nat :=
  if '0' ≤ c ∧ c ≤ '9' then some (c.toNat - '0'.toNat)
  else if 'a' ≤ c ∧ c ≤ 'f' then some (c.toNat - 'a'.toNat + 10)
  else if 'A' ≤ c ∧ c ≤ 'F' then some (c.toNat - 'A'.toNat + 10)
  else none

/-- Value of four hexadecimal digits. -/
def hexQuad? (a b c d : Char) : Option Nat := do
  return (((← hexValue? a) * 16 + (← hexValue? b)) * 16 + (← hexValue? c)) * 16 + (← hexValue? d)

/-- The character of an escape of two characters. -/
def escaped? : Char → Option Char
  | '"' => some '"'
  | '\\' => some '\\'
  | '/' => some '/'
  | 'b' => some '\x08'
  | 'f' => some '\x0c'
  | 'n' => some '\n'
  | 'r' => some '\r'
  | 't' => some '\t'
  | _ => none

/-- Whether a number is the first half of a surrogate pair. -/
def isHighSurrogate (n : Nat) : Bool := decide (0xD800 ≤ n) && decide (n ≤ 0xDBFF)

/-- Whether a number is the second half of a surrogate pair. -/
def isLowSurrogate (n : Nat) : Bool := decide (0xDC00 ≤ n) && decide (n ≤ 0xDFFF)

/-- The character of a surrogate pair. -/
def pairChar (high low : Nat) : Char :=
  Char.ofNat (0x10000 + (high - 0xD800) * 0x400 + (low - 0xDC00))

/-- What is wrong with a numbered escape cut short: the text ends within its four bytes, or they
are no digits. -/
def shortQuad (offset : Nat) (rest : List Char) : Problem × Nat :=
  if Text.byteCount rest < 4 then (.endOfString, offset + Text.byteCount rest)
  else (.invalidEscape, offset + 4)

/-- Result of reading a string: its characters and the cursor after its closing quote. -/
abbrev Scan := Except (Problem × Nat) (List Char × Cursor)

/-- Put a character in front of a string that was read. -/
def Scan.cons (c : Char) (scan : Scan) : Scan :=
  scan.map fun (chars, cursor) => (c :: chars, cursor)

/-- The characters of a string whose opening quote stands before the given offset. -/
def scan (offset : Nat) : List Char → Scan
  | [] => .error (.endOfString, offset)
  | '"' :: rest => .ok ([], ⟨rest, offset + 1⟩)
  | '\\' :: 'u' :: a :: b :: c :: d :: rest =>
    match hexQuad? a b c d with
    | none => .error (.invalidEscape, offset + 6)
    | some high =>
      if isLowSurrogate high then .error (.loneSurrogate, offset + 6)
      else if isHighSurrogate high then
        match rest with
        | '\\' :: 'u' :: e :: f :: g :: h :: rest =>
          match hexQuad? e f g h with
          | none => .error (.invalidEscape, offset + 12)
          | some low =>
            if isLowSurrogate low then Scan.cons (pairChar high low) (scan (offset + 12) rest)
            else .error (.loneSurrogate, offset + 12)
        | '\\' :: 'u' :: rest => .error (shortQuad (offset + 8) rest)
        | '\\' :: _ :: _ => .error (.brokenSurrogate, offset + 8)
        | ['\\'] => .error (.endOfString, offset + 7)
        | _ :: _ => .error (.brokenSurrogate, offset + 7)
        | [] => .error (.endOfString, offset + 6)
      else Scan.cons (Char.ofNat high) (scan (offset + 6) rest)
  | '\\' :: 'u' :: rest => .error (shortQuad (offset + 2) rest)
  | '\\' :: c :: rest =>
    match escaped? c with
    | some d => Scan.cons d (scan (offset + 2) rest)
    | none => .error (.invalidEscape, offset + 2)
  | ['\\'] => .error (.endOfString, offset + 1)
  | c :: rest =>
    if c.toNat < 0x20 then .error (.controlCharacter, offset + 1)
    else Scan.cons c (scan (offset + c.utf8Size) rest)

/-- The cursor after a string nobody wants, whose opening quote stands before the given offset. -/
def pass (offset : Nat) : List Char → Except (Problem × Nat) Cursor
  | [] => .error (.endOfString, offset)
  | '"' :: rest => .ok ⟨rest, offset + 1⟩
  | '\\' :: 'u' :: a :: b :: c :: d :: rest =>
    match hexQuad? a b c d with
    | none => .error (.invalidEscape, offset + 6)
    | some _ => pass (offset + 6) rest
  | '\\' :: 'u' :: rest => .error (shortQuad (offset + 2) rest)
  | '\\' :: c :: rest =>
    match escaped? c with
    | some _ => pass (offset + 2) rest
    | none => .error (.invalidEscape, offset + 2)
  | ['\\'] => .error (.endOfString, offset + 1)
  | c :: rest =>
    if c.toNat < 0x20 then .error (.controlCharacter, offset)
    else pass (offset + c.utf8Size) rest

/-- A string whose opening quote comes next. -/
def quotedString : Reader String := do
  eat
  let cursor ← get
  match scan cursor.offset cursor.rest with
  | .ok (chars, after) =>
    set after
    return String.ofList chars
  | .error (problem, offset) => failAt problem offset

/-- Pass over a string whose opening quote comes next. -/
def skipString : Reader Unit := do
  eat
  let cursor ← get
  match pass cursor.offset cursor.rest with
  | .ok after => set after
  | .error (problem, offset) => failAt problem offset

end Json

end PatchCompiler
