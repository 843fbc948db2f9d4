import PatchCompiler.Source.Span

/-! # Why a program cannot be compiled

Every failure is a cause with the place it is reported at. The wording of all causes
is in this file. -/

namespace PatchCompiler

/-- Number of a diagnostic. -/
structure ErrorCode where
  /-- The number. -/
  number : UInt16
  deriving DecidableEq, Repr

/-- Well-formed constructs that cannot be compiled yet. -/
inductive Feature where
  /-- A bitwise operator. -/
  | bitwise
  /-- A function definition that is not the right side of an assignment. -/
  | bareFunction
  /-- A clamp against a range that lacks an end. -/
  | openClamp
  /-- Reading an array element. -/
  | indexedRead
  /-- A property of a value. -/
  | property (field : String)
  /-- An array member of a kind that cannot be stored. -/
  | initializer
  /-- A range as an array member whose upper end is no integer literal, or no range expression. -/
  | computedRange
  /-- A range as an array member without an upper end. -/
  | openRange
  /-- A range as an array member whose lower end is no integer literal. -/
  | computedStart
  deriving DecidableEq, Repr

/-- What is missing, in words. -/
def Feature.text : Feature → String
  | .bitwise => "bitwise operator"
  | .bareFunction => "function definition outside an assignment"
  | .openClamp => "open-ended clamp range"
  | .indexedRead => "indexed read"
  | .property field => "property access `." ++ field ++ "`"
  | .initializer => "array initializer"
  | .computedRange => "array initializer: computed range"
  | .openRange => "array initializer: open-ended range"
  | .computedStart => "array initializer: computed range min value"

/-- Why an assignment is refused. -/
inductive BadAssignment where
  /-- A function name is given something other than a function definition. -/
  | functionName (name : String)
  /-- The right side has no value that can be stored. -/
  | noValue (name : String)
  /-- The left side cannot be stored to. -/
  | target (label : String)
  deriving DecidableEq, Repr

/-- The reason in words. -/
def BadAssignment.text : BadAssignment → String
  | .functionName name => "function `" ++ name ++ "` can only be assigned a function definition"
  | .noValue name => "right side of `" ++ name ++ " =` has no storable value"
  | .target label => "cannot assign to `" ++ label ++ "`"

/-- Limits of 32-bit memory. -/
inductive Limit where
  /-- An array has more elements than can be counted. -/
  | elements
  /-- An allocation runs past the end of memory. -/
  | slots (count cursor : UInt32)
  /-- An array element lies past the end of memory. -/
  | element (index : UInt32)
  /-- More pages are needed than a memory can have. -/
  | pages (count : UInt32)
  deriving DecidableEq, Repr

/-- Most pages a memory can have. -/
def maxPages : UInt32 := 65536

/-- The limit in words. -/
def Limit.text : Limit → String
  | .elements => "array element count overflows"
  | .slots count cursor =>
    "allocating " ++ toString count.toNat ++ " slots past offset " ++ toString cursor.toNat
      ++ " overflows 32-bit memory"
  | .element index => "array element " ++ toString index.toNat ++ " lies past 32-bit memory"
  | .pages count =>
    toString count.toNat ++ " memory pages requested, at most " ++ toString maxPages.toNat
      ++ " allowed"

/-- Why a program cannot be compiled. -/
inductive Failure where
  /-- The node has no code where it stands. -/
  | unknownOperation (label : String) (span : Span)
  /-- The construct cannot be compiled yet. -/
  | unimplemented (feature : Feature) (label : String) (span : Span)
  /-- The right side of a clamp is no range. -/
  | clampTarget (span : Span)
  /-- The two sides of an assignment do not go together. -/
  | badAssignment (reason : BadAssignment) (span : Span)
  /-- The length of something other than an array is asked for. -/
  | lengthTarget (span : Span)
  /-- A name is not bound in any enclosing scope. -/
  | unresolved (name : String) (span : Span)
  /-- The program needs more memory than there is. -/
  | limitExceeded (limit : Limit)
  deriving DecidableEq, Repr

namespace Failure

/-- The failure in words. -/
def message : Failure → String
  | .unknownOperation label _ => "unknown operation `" ++ label ++ "`"
  | .unimplemented feature label _ => "unimplemented " ++ feature.text ++ " (`" ++ label ++ "`)"
  | .clampTarget _ => "non-range passed as right side of clamp operator (`-<`)"
  | .badAssignment reason _ => "invalid assignment: " ++ reason.text
  | .lengthTarget _ => "reading length of non-array (`[]`)"
  | .unresolved name _ => "unresolved symbol: " ++ name
  | .limitExceeded limit => "limit exceeded: " ++ limit.text

/-- Number of the failure's diagnostic. -/
def code : Failure → ErrorCode
  | .unknownOperation .. => ⟨200⟩
  | .unimplemented .. => ⟨201⟩
  | .clampTarget _ => ⟨300⟩
  | .badAssignment .. => ⟨301⟩
  | .lengthTarget _ => ⟨302⟩
  | .unresolved .. => ⟨400⟩
  | .limitExceeded _ => ⟨502⟩

/-- Where the failure is reported; a limit belongs to no place. -/
def span : Failure → Span
  | .unknownOperation _ span => span
  | .unimplemented _ _ span => span
  | .clampTarget span => span
  | .badAssignment _ span => span
  | .lengthTarget span => span
  | .unresolved _ span => span
  | .limitExceeded _ => .synthetic

/-- What could be done about the failure. -/
def suggestion? : Failure → Option String
  | .clampTarget _ => some "clamp against a range, e.g. `x -< 0..1`"
  | .lengthTarget _ => some "`[]` reads the length of an array value"
  | .unresolved name _ => some ("`" ++ name ++ "` must be bound in an enclosing scope")
  | _ => none

end Failure

end PatchCompiler
