import PatchCompiler.Json.Fault
import PatchCompiler.Source.Text

/-! # Reading JSON text

A reader takes characters off a text and keeps count of the bytes it has passed. A problem is
reported at the offset reached (`fail`) or one byte further on (`failNext`). -/

namespace PatchCompiler

namespace Json

/-- What is left of a text, and the offset at which it begins. -/
structure Cursor where
  /-- The characters left. -/
  rest : List Char
  /-- Number of bytes before them. -/
  offset : Nat
  deriving DecidableEq, Repr

/-- A step of reading. A step that fails leaves the cursor where it failed. -/
abbrev Reader := EStateM Fault Cursor

/-- The next character. -/
def peek : Reader (Option Char) := do return (← get).rest.head?

/-- Pass over the next character. -/
def eat : Reader Unit := modify fun cursor =>
  match cursor.rest with
  | [] => cursor
  | c :: rest => ⟨rest, cursor.offset + c.utf8Size⟩

/-- Report a problem at an offset. -/
def failAt {α : Type} (problem : Problem) (offset : Nat) : Reader α :=
  throw ⟨problem, some offset⟩

/-- Report a problem here. -/
def fail {α : Type} (problem : Problem) : Reader α := do failAt problem (← get).offset

/-- Report a problem one byte further on, or here at the end of the text. -/
def failNext {α : Type} (problem : Problem) : Reader α := do
  let cursor ← get
  failAt problem (if cursor.rest.isEmpty then cursor.offset else cursor.offset + 1)

/-- Report a problem that the enclosing container places. -/
def failUnplaced {α : Type} (problem : Problem) : Reader α := throw ⟨problem, none⟩

/-- Whether a character may stand between the parts of a text. -/
def isBlank (c : Char) : Bool := c = ' ' || c = '\n' || c = '\t' || c = '\r'

/-- Pass over blanks. -/
def skipBlanks : Reader Unit := modify fun cursor =>
  ⟨cursor.rest.dropWhile isBlank, cursor.offset + (cursor.rest.takeWhile isBlank).length⟩

/-- The next character after blanks. -/
def next : Reader (Option Char) := do
  skipBlanks
  peek

/-- The first character of a value that has to follow. -/
def need : Reader Char := do
  match ← next with
  | some c => return c
  | none => failNext .endOfValue

/-- The rest of a literal whose first letter has been seen. -/
def expectRest : List Char → Reader Unit
  | [] => return
  | c :: rest => do
    match ← peek with
    | none => fail .endOfValue
    | some d =>
      if d = c then
        eat
        expectRest rest
      else failNext .expectedIdent

/-- A literal whose first letter has been seen. -/
def literal (name : String) : Reader Unit := do
  eat
  expectRest name.toList.tail

/-- The colon between the name and the value of a member. -/
def colon : Reader Unit := do
  match ← next with
  | some ':' => eat
  | some _ => failNext .expectedColon
  | none => failNext .endOfObject

/-! ## Containers -/

/-- The end of a list. -/
def closeList : Reader Unit := do
  match ← next with
  | some ']' => eat
  | some ',' =>
    eat
    match ← next with
    | some ']' => failNext .trailingComma
    | _ => failNext .trailingCharacters
  | some _ => failNext .trailingCharacters
  | none => failNext .endOfList

/-- The end of an object. -/
def closeObject : Reader Unit := do
  match ← next with
  | some '}' => eat
  | some ',' => failNext .trailingComma
  | some _ => failNext .trailingCharacters
  | none => failNext .endOfObject

/-- Read the contents of a container and its end. If the contents fail without an offset, the
problem is reported where an attempt to read the end leads. -/
def enclosed {α : Type} (contents : Reader α) (close : Reader Unit) : Reader α := fun cursor =>
  match contents cursor with
  | .ok value cursor =>
    match close cursor with
    | .ok _ cursor => .ok value cursor
    | .error fault cursor => .error fault cursor
  | .error fault cursor =>
    match close cursor with
    | .ok _ cursor => .error (fault.place cursor.offset) cursor
    | .error _ cursor => .error (fault.place cursor.offset) cursor

/-- Number of containers that may be open at once. -/
def maxLevels : Nat := 127

/-- Open a container when at most `levels` more may be opened. -/
def opening {α : Type} (levels : Nat) (contents : (inner : Nat) → inner < levels → Reader α) :
    Reader α :=
  match levels, contents with
  | 0, _ => failNext .tooDeep
  | inner + 1, contents => do
    eat
    contents inner (Nat.lt_succ_self inner)

/-- Whether a list has a further item; passes the comma in front of it. -/
def nextItem (first : Bool) : Reader Bool := do
  match ← next with
  | none => failNext .endOfList
  | some ']' => return false
  | some c =>
    if first then return true
    else if c = ',' then
      eat
      match ← next with
      | some ']' => failNext .trailingComma
      | none => failNext .endOfValue
      | some _ => return true
    else failNext .expectedListEnd

/-- The quote that begins the name of a member. -/
def nextName : Reader Unit := do
  match ← peek with
  | some '"' => return
  | _ => failNext .keyNotString

/-- Whether an object has a further member; passes the comma in front of it. -/
def nextMember (first : Bool) : Reader Bool := do
  match ← next with
  | none => failNext .endOfObject
  | some '}' => return false
  | some c =>
    if first then
      nextName
      return true
    else if c = ',' then
      eat
      match ← next with
      | some '}' => failNext .trailingComma
      | none => failNext .endOfValue
      | some _ =>
        nextName
        return true
    else failNext .expectedObjectEnd

/-- Items up to the end of a list; the fuel bounds their number. -/
def items {α : Type} (item : Reader α) : (fuel : Nat) → (first : Bool) → Reader (List α)
  | 0, _ => failNext .endOfList
  | fuel + 1, first => do
    if ← nextItem first then
      let head ← item
      return head :: (← items item fuel false)
    else return []

/-- More items or members than a text can hold. -/
def enough : Reader Nat := do return (← get).rest.length + 1

/-- All items up to the end of a list. -/
def allItems {α : Type} (item : Reader α) : Reader (List α) := do items item (← enough) true

/-! ## Whole texts -/

/-- Why a text could not be read, with the line and column of the place. -/
structure DecodeError where
  /-- What is wrong. -/
  problem : Problem
  /-- The line, counted from one. -/
  line : Nat
  /-- Bytes between the start of the line and the place. -/
  column : Nat
  deriving DecidableEq, Repr

/-- The error in words. -/
def DecodeError.message (e : DecodeError) : String :=
  e.problem.text ++ " at line " ++ toString e.line ++ " column " ++ toString e.column

/-- A value and nothing after it but blanks. -/
def document {α : Type} (value : Reader α) : Reader α := do
  let result ← value
  match ← next with
  | some _ => failNext .trailingCharacters
  | none => return result

/-- Read a whole text. -/
def decode {α : Type} (value : Reader α) (text : String) : Except DecodeError α :=
  match document value ⟨text.toList, 0⟩ with
  | .ok result _ => .ok result
  | .error fault cursor =>
    let (line, column) := Text.place text (fault.offset.getD cursor.offset)
    .error ⟨fault.problem, line, column⟩

end Json

end PatchCompiler
