import PatchCompiler.Number.Layout
import PatchCompiler.Tree.Scope

/-! # Instructions of module text

Module text is written in folded form: an instruction is a parenthesised head followed by the code
of its operands. Code is kept as a tree, and `Code.render` is the only place that turns it into
text, so that what an instruction computes and how it is laid out can be told apart. -/

namespace PatchCompiler

/-- Machine types. -/
inductive ValType where
  /-- 32-bit integers. -/
  | i32
  /-- 64-bit floating-point numbers. -/
  | f64
  deriving DecidableEq, Repr

/-- Written name of a machine type. -/
def ValType.name : ValType → String
  | .i32 => "i32"
  | .f64 => "f64"

/-- Machine type of a variable or function result: decimals are floating-point, all else is an
integer. -/
def Kind.valType : Kind → ValType
  | .float => .f64
  | _ => .i32

/-- Machine type in which a parameter is passed: arrays by address, all else as floating-point. -/
def Kind.paramType : Kind → ValType
  | .pointer => .i32
  | _ => .f64

/-- Machine type in which a variable is held. -/
def Variable.valType (v : Variable) : ValType :=
  if v.storage = .parameter then v.kind.paramType else v.kind.valType

/-- Instructions on 32-bit integers; comparisons and the remainder are signed. -/
inductive IntOp where
  /-- Sum. -/
  | add
  /-- Difference. -/
  | sub
  /-- Product. -/
  | mul
  /-- Less than. -/
  | lt
  /-- At most. -/
  | le
  /-- Greater than. -/
  | gt
  /-- At least. -/
  | ge
  /-- Equal. -/
  | eq
  /-- Different. -/
  | ne
  /-- Shift to the left. -/
  | shl
  /-- Remainder of the division that rounds toward zero. -/
  | rem
  deriving DecidableEq, Repr

/-- Written name of an integer instruction, without its type. -/
def IntOp.name : IntOp → String
  | .add => "add"
  | .sub => "sub"
  | .mul => "mul"
  | .lt => "lt_s"
  | .le => "le_s"
  | .gt => "gt_s"
  | .ge => "ge_s"
  | .eq => "eq"
  | .ne => "ne"
  | .shl => "shl"
  | .rem => "rem_s"

/-- Instructions on floating-point numbers. -/
inductive FloatOp where
  /-- Sum. -/
  | add
  /-- Difference. -/
  | sub
  /-- Product. -/
  | mul
  /-- Less than. -/
  | lt
  /-- At most. -/
  | le
  /-- Greater than. -/
  | gt
  /-- At least. -/
  | ge
  /-- Equal. -/
  | eq
  /-- Different. -/
  | ne
  /-- Opposite. -/
  | neg
  /-- Lesser one. -/
  | min
  /-- Greater one. -/
  | max
  deriving DecidableEq, Repr

/-- Written name of a floating-point instruction, without its type. -/
def FloatOp.name : FloatOp → String
  | .add => "add"
  | .sub => "sub"
  | .mul => "mul"
  | .lt => "lt"
  | .le => "le"
  | .gt => "gt"
  | .ge => "ge"
  | .eq => "eq"
  | .ne => "ne"
  | .neg => "neg"
  | .min => "min"
  | .max => "max"

/-- Label of a loop: its nesting depth. -/
abbrev Label := UInt32

/-- Heads of instructions. -/
inductive Op where
  /-- An integer constant. -/
  | constInt (value : Int32)
  /-- A floating-point constant. -/
  | constFloat (value : Binary64)
  /-- Read a global variable. -/
  | getGlobal (name : String)
  /-- Read a local variable or a parameter. -/
  | getLocal (name : String)
  /-- Write a global variable. -/
  | setGlobal (name : String)
  /-- Write a local variable or a parameter and keep the value. -/
  | teeLocal (name : String)
  /-- Call a function. -/
  | call (name : String)
  /-- An integer instruction. -/
  | int (op : IntOp)
  /-- A floating-point instruction. -/
  | float (op : FloatOp)
  /-- Signed integer to floating-point. -/
  | convert
  /-- Floating-point to signed integer, rounding toward zero. -/
  | truncate
  /-- Load an integer from memory. -/
  | loadInt
  /-- Store an integer to memory. -/
  | storeInt
  /-- Store a floating-point number to memory. -/
  | storeFloat
  /-- Choose one of two values. -/
  | select
  /-- A block that can be started again from inside. -/
  | loop (label : Label)
  /-- A conditional: a test and the part to run. -/
  | conditional
  /-- The part of a conditional that runs when its test holds. -/
  | thenPart
  /-- Start a loop again. -/
  | branch (label : Label)
  /-- Leave the function. -/
  | ret
  deriving DecidableEq, Repr

namespace Wasm

/-- Text of a floating-point constant: the shortest digits with all their places, a tie between
two decimals going to the larger one. -/
def floatText (x : Binary64) : String :=
  if x.isNaN then "nan"
  else
    let magnitude :=
      if x.isInfinite then "inf"
      else if x.isZero then "0"
      else String.ofList (x.shortest .up).positional
    if x.isNegative then "-" ++ magnitude else magnitude

/-- Text of a loop label. -/
def labelText (label : Label) : String := "$loop" ++ toString label.toNat

/-- Text of an instruction's head. -/
def headText : Op → String
  | .constInt value => "i32.const " ++ toString value.toInt
  | .constFloat value => "f64.const " ++ floatText value
  | .getGlobal name => "global.get $" ++ name
  | .getLocal name => "local.get $" ++ name
  | .setGlobal name => "global.set $" ++ name
  | .teeLocal name => "local.tee $" ++ name
  | .call name => "call $" ++ name
  | .int op => "i32." ++ op.name
  | .float op => "f64." ++ op.name
  | .convert => "f64.convert_i32_s"
  | .truncate => "i32.trunc_f64_s"
  | .loadInt => "i32.load"
  | .storeInt => "i32.store"
  | .storeFloat => "f64.store"
  | .select => "select"
  | .loop label => "loop " ++ labelText label
  | .conditional => "if"
  | .thenPart => "then"
  | .branch label => "br " ++ labelText label
  | .ret => "return"

end Wasm

/-- What separates an instruction from the one before it. -/
inductive Gap where
  /-- Nothing. -/
  | tight
  /-- A blank. -/
  | space
  /-- A new line. -/
  | newline
  /-- A new line that starts with two blanks. -/
  | indent
  deriving DecidableEq, Repr

/-- Text of a gap. -/
def Gap.text : Gap → String
  | .tight => ""
  | .space => " "
  | .newline => "\n"
  | .indent => "\n  "

/-- An instruction: its head and the code of each of its operands. The code of an operand may hold
any number of instructions. -/
inductive Instr where
  /-- A head applied to operands. -/
  | node (op : Op) (operands : List (List (Gap × Instr)))

/-- A run of instructions, each with the gap in front of it. Code that stands on its own begins
without a gap. -/
abbrev Code := List (Gap × Instr)

mutual

/-- Text of an instruction. A blank stands in front of each operand, also of an empty one. -/
def Instr.render : Instr → String
  | .node op operands => "(" ++ Wasm.headText op ++ Instr.renderOperands operands ++ ")"

/-- Text of the operands of an instruction. -/
def Instr.renderOperands : List (List (Gap × Instr)) → String
  | [] => ""
  | operand :: rest => " " ++ Instr.renderRun operand ++ Instr.renderOperands rest

/-- Text of a run of instructions. -/
def Instr.renderRun : List (Gap × Instr) → String
  | [] => ""
  | (gap, i) :: rest => gap.text ++ i.render ++ Instr.renderRun rest

end

namespace Code

/-- Text of code. -/
def render (code : Code) : String := Instr.renderRun code

/-- The code of one instruction. -/
def one (op : Op) (operands : List Code) : Code := [(.tight, .node op operands)]

/-- Put a gap in front of code. -/
def lead (gap : Gap) : Code → Code
  | [] => []
  | (_, i) :: rest => (gap, i) :: rest

/-- One code after another, with a gap between them if both hold instructions. -/
def append (gap : Gap) (first second : Code) : Code :=
  if first.isEmpty then second else first ++ second.lead gap

/-- All codes of a list in order, with a gap between those that hold instructions. -/
def join (gap : Gap) : List Code → Code
  | [] => []
  | code :: rest => append gap code (join gap rest)

/-- An integer constant. -/
def int (value : Int32) : Code := one (.constInt value) []

/-- A floating-point constant. -/
def float (value : Binary64) : Code := one (.constFloat value) []

end Code

end PatchCompiler
