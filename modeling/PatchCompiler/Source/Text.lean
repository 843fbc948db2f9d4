/-! # Source texts and their lines

Offsets into a text count the bytes of its UTF-8 form. A `SourceText` finds a line between two
offsets of its table of line starts; `Text.place` turns an offset into a line and a column. -/

namespace PatchCompiler

namespace Text

/-- Number of UTF-8 bytes of a run of characters. -/
def byteCount : List Char → Nat
  | [] => 0
  | c :: rest => c.utf8Size + byteCount rest

/-- The characters of a text that start at or after the first offset and before the second; `here`
is the offset of the head of the list. -/
def sliceFrom (here start stop : Nat) : List Char → List Char
  | [] => []
  | c :: rest =>
    if here < start then sliceFrom (here + c.utf8Size) start stop rest
    else if here < stop then c :: sliceFrom (here + c.utf8Size) start stop rest
    else []

/-- The part of a text between two byte offsets. -/
def slice (text : List Char) (start stop : Nat) : List Char := sliceFrom 0 start stop text

/-- Offsets just after each newline of a text whose head stands at offset `here`. -/
def newlineEnds (here : Nat) : List Char → List Nat
  | [] => []
  | c :: rest =>
    if c = '\n' then (here + 1) :: newlineEnds (here + 1) rest
    else newlineEnds (here + c.utf8Size) rest

/-- Offsets at which the lines of a text start. -/
def lineStarts (text : List Char) : List Nat := 0 :: newlineEnds 0 text

/-- Remove every carriage return at the end. -/
def dropReturns (line : List Char) : List Char :=
  (line.reverse.dropWhile (· = '\r')).reverse

/-- Remove one carriage return at the end, if there is one. -/
def dropReturn (line : List Char) : List Char :=
  match line.reverse with
  | '\r' :: rest => rest.reverse
  | _ => line

/-- The lines of a text that continues a line begun by `current`, whose last character comes
first. -/
def linesFrom (current : List Char) : List Char → List (List Char)
  | [] => if current.isEmpty then [] else [current.reverse]
  | c :: rest =>
    if c = '\n' then dropReturn current.reverse :: linesFrom [] rest
    else linesFrom (c :: current) rest

/-- The lines of a text: the pieces between newlines, where a newline takes a carriage return
directly before it along, and nothing after the last newline is no line. -/
def lines (text : List Char) : List (List Char) := linesFrom [] text

/-- The line of a text with a given number, counted from one; empty when there is none. -/
def lineAt (text : String) (line : Nat) : String :=
  String.ofList (((lines text.toList)[line - 1]?).getD [])

/-- Where an offset lies: its line, counted from one, and the offset at which that line starts. -/
def placeFrom (offset : Nat) : (here line start : Nat) → List Char → Nat × Nat
  | _, line, start, [] => (line, start)
  | here, line, start, c :: rest =>
    if here < offset then
      if c = '\n' then placeFrom offset (here + 1) (line + 1) (here + 1) rest
      else placeFrom offset (here + c.utf8Size) line start rest
    else (line, start)

/-- Line and column of a byte offset. The line is one more than the number of newlines before the
offset; the column is the number of bytes between the start of that line and the offset. -/
def place (text : String) (offset : Nat) : Nat × Nat :=
  let (line, start) := placeFrom offset 0 1 0 text.toList
  (line, offset - start)

end Text

/-- A named text whose lines can be quoted. -/
structure SourceText where
  /-- Name of the text, as diagnostics report it. -/
  name : String
  /-- The text itself. -/
  text : String
  deriving DecidableEq, Repr

namespace SourceText

/-- Offsets at which the lines of the text start. -/
def starts (source : SourceText) : List Nat := Text.lineStarts source.text.toList

/-- Number of lines; a text without a newline has one. -/
def lineCount (source : SourceText) : Nat := source.starts.length

/-- Offsets between which the line with a given number stands, counted from one: where it starts, and
where the newline that ends it stands or, for the last line, the text ends. -/
def extent? (source : SourceText) (number : UInt32) : Option (Nat × Nat) :=
  match number.toNat with
  | 0 => none
  | index + 1 =>
    (source.starts[index]?).map fun start =>
      (start,
        match source.starts[index + 1]? with
        | some next => next - 1
        | none => Text.byteCount source.text.toList)

/-- The line with a given number, counted from one, without the newline that ends it and without
carriage returns at its end. -/
def line? (source : SourceText) (number : UInt32) : Option String :=
  (source.extent? number).map fun extent =>
    String.ofList (Text.dropReturns (Text.slice source.text.toList extent.1 extent.2))

end SourceText

end PatchCompiler
