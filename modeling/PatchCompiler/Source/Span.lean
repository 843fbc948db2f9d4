/-! # Spans of source text

A span is a region of the text a program was written in. Lines and columns count from one; the
span whose four numbers are all zero marks a node that stands for no text. `Span.merge` gives the
smallest region covering two spans. -/

namespace PatchCompiler

/-- A region of source text, from a first position to a last one. -/
structure Span where
  /-- Line of the first position. -/
  line : UInt32
  /-- Column of the first position. -/
  column : UInt32
  /-- Line of the last position. -/
  endLine : UInt32
  /-- Column of the last position. -/
  endColumn : UInt32
  deriving DecidableEq, Repr

namespace Span

/-- The span of a node that has no source text. -/
def synthetic : Span := ⟨0, 0, 0, 0⟩

/-- The synthetic span stands for any other. -/
instance : Inhabited Span := ⟨synthetic⟩

/-- The zero-width span at one position. -/
def point (line column : UInt32) : Span := ⟨line, column, line, column⟩

/-- Whether a span stands for no source text. -/
def isSynthetic (span : Span) : Bool := decide (span = synthetic)

/-- The smallest region covering two spans; a synthetic span covers nothing, so the other one is
the answer. -/
def merge (left right : Span) : Span :=
  if left.isSynthetic then right
  else if right.isSynthetic then left
  else
    { line := min left.line right.line
      column :=
        if left.line < right.line then left.column
        else if right.line < left.line then right.column
        else min left.column right.column
      endLine := max left.endLine right.endLine
      endColumn :=
        if right.endLine < left.endLine then left.endColumn
        else if left.endLine < right.endLine then right.endColumn
        else max left.endColumn right.endColumn }

/-- A span is shown by its first position. -/
def render (span : Span) : String :=
  toString span.line.toNat ++ ":" ++ toString span.column.toNat

end Span

end PatchCompiler
