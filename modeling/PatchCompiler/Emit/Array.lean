import PatchCompiler.Emit.Operand
import PatchCompiler.Number.Numeral

/-! # Arrays and assignments

An array literal is laid out before the code of any of its members is written: one slot for a
number, one for each integer of a range `min..max`, and `n` slots without a value for `..n`. Elements
are written through an index that wraps around the array's length. -/

namespace PatchCompiler

/-- What a member of an array literal contributes. -/
inductive Member where
  /-- A number, stored in one slot. -/
  | value (operand : Operand)
  /-- The integers from a least to a greatest one, each in a slot. -/
  | ints (low high : Int32)
  /-- Slots that are not written. -/
  | reserve (count : UInt32)

namespace Member

/-- The integers from a least to a greatest one. -/
def intRange (low high : Int32) : List Int32 :=
  (List.range (high.toInt - low.toInt + 1).toNat).map fun (i : Nat) => Int32.ofInt (low.toInt + i)

/-- Number of slots of a member. -/
def slots : Member → UInt32
  | .value _ => 1
  | .ints low high => if low ≤ high then Word.addSaturating (Word.absDiff high low) 1 else 0
  | .reserve count => count

/-- Number of slots of members together, if it fits into 32 bits. -/
def count? (layout : List Member) : Option UInt32 :=
  layout.foldlM (fun count m => Word.add? count m.slots) 0

/-- A member that is a range expression: both ends have to be integer literals, or the upper one
alone. -/
def ofRange (member : Expr Frame) : Except Feature Member :=
  match member.node with
  | .range start stop =>
    match stop.map Expr.node with
    | some (.intLit high) =>
      match start.map Expr.node with
      | none => .ok (.reserve (max high 0).toUInt32)
      | some (.intLit low) => .ok (.ints low high)
      | some _ => .error .computedStart
    | some _ => .error .computedRange
    | none => .error .openRange
  | _ => .error .computedRange

/-- What a member of a kind contributes. -/
def ofOperand (kind : Option Kind) (operand : Operand) : Except Feature Member :=
  match kind with
  | some .int | some .float => .ok (.value operand)
  | some .range => ofRange operand.expr
  | _ => .error .initializer

end Member

namespace Emit

/-- What each member of an array literal contributes. -/
def classify : List Operand → Emit (List Member)
  | [] => return []
  | operand :: rest => do
    match Member.ofOperand (← operand.kind) operand with
    | .ok member => return member :: (← classify rest)
    | .error feature => throw (.unimplemented feature operand.expr.label operand.expr.span)

/-- An address as an integer constant. -/
def address (a : Nat) : Code := .int (Int32.ofInt a)

/-- Address of an element of the array at an address; fails if it would not fit into 32 bits. -/
def slotOffset (base index : UInt32) : Except Limit UInt32 :=
  match slotsPast? base index with
  | some offset => .ok offset
  | none => .error (.element index)

/-- A store of a floating-point number to an element of the array at an address. -/
def storeAt (base index : UInt32) (value : Code) : Emit Code :=
  match slotOffset base index with
  | .ok offset => return .one .storeFloat [address offset.toNat, value]
  | .error limit => throw (.limitExceeded limit)

/-- Code of a number stored in an array; an integer literal is converted here. -/
def memberValue (operand : Operand) : Emit Code :=
  match operand.expr.node with
  | .intLit value => return .float (.ofInt32 value)
  | _ => operand.emitAs .f64

/-- The stores of integers to the elements of an array, from a slot on. -/
def storeInts (base : UInt32) : (slot : UInt32) → List Int32 → Emit (List Code)
  | _, [] => return []
  | slot, value :: rest => do
    let store ← storeAt base slot (.float (.ofInt32 value))
    return store :: (← storeInts base (slot + 1) rest)

/-- The stores of the members of an array, from a slot on. -/
def storeMembers (base : UInt32) : (slot : UInt32) → List Member → Emit (List Code)
  | _, [] => return []
  | slot, .value operand :: rest => do
    let value ← memberValue operand
    let store ← storeAt base slot value
    return store :: (← storeMembers base (slot + 1) rest)
  | slot, .ints low high :: rest => do
    let values := Member.intRange low high
    let stores ← storeInts base slot values
    return stores ++ (← storeMembers base (slot + .ofNat values.length) rest)
  | slot, .reserve count :: rest => storeMembers base (slot + count) rest

/-- An array literal: its element count is stored in front of it, then its members, and its address
is left as the value. -/
def array (members : List Operand) (span : Span) : Emit Code := do
  let layout ← classify members
  let some count := Member.count? layout | throw (.limitExceeded .elements)
  -- memory is handed out before the members are compiled, so that arrays among them come after it
  let base ← openArray
  advance count
  modify fun s => s.record (.array span base count)
  let header := Code.one .storeInt [address (base - .ofNat slotBytes).toNat, address count.toNat]
  let stores ← storeMembers base 0 layout
  return .join .space (header :: stores ++ [address base.toNat])

/-- The length of an array, read from the slot in front of it. -/
def length (array : Operand) (span : Span) : Emit Code := do
  if (← array.kind) = some .pointer then
    return .one .loadInt [.one (.int .sub) [← array.emit, address slotBytes]]
  else throw (.lengthTarget (array.expr.span.merge span))

/-! ## Assignment -/

/-- Which element of an array is written. -/
inductive ElementIndex where
  /-- The one an expression computes. -/
  | computed (index : Operand)
  /-- A fixed one. -/
  | fixed (index : Int32)

/-- Code of an element's index. -/
def ElementIndex.emit : ElementIndex → Emit Code
  | .computed index => index.emitAs .i32
  | .fixed index => return .int index

/-- Write an element of an array; the index wraps around the array's length. -/
def storeElement (array : Operand) (index : ElementIndex) (value : Code) (span : Span) :
    Emit Code := do
  modify fun s => s.require .index
  -- the array is compiled twice: here for its address, and in `length` for its element count
  let base ← array.emit
  let i ← index.emit
  let n ← length array span
  let offset := Code.one (.int .shl) [.one (.call Snippet.index.name) [i, n], .int 3]
  return .one .storeFloat [.one (.int .add) [base, offset], value]

/-- A part of a value that stands on the left of an assignment. -/
inductive Part where
  /-- An array element. -/
  | element (array index : Operand)
  /-- A field; a number is taken for an index. -/
  | field (object : Operand) (field : String) (span : Span)
  /-- The length of an array, which cannot be written. -/
  | length

/-- What stands on the left of an assignment. -/
inductive Target where
  /-- A variable. -/
  | name (name : String) (span : Span)
  /-- A part of a value. -/
  | part (part : Part)
  /-- Something that cannot be assigned to, shown by its label. -/
  | other (label : String)

/-- The variable of a name that is assigned to; function names take only function definitions. -/
def storable (name : String) (nameSpan span : Span) : Emit Variable := do
  let v ← resolve name nameSpan
  if v.kind = .function then throw (.badAssignment (.functionName name) span)
  return v

/-- Write a variable and leave its new value. -/
def store (name : String) (v : Variable) (code : Code) (kind : Option Kind) : Code :=
  let value := (Coercion.fit v.valType kind).apply code
  if v.isGlobal then Code.one (.setGlobal name) [value] ++ read name v
  else .one (.teeLocal name) [value]

/-- Write a floating-point number to a part of a value. -/
def storePart (part : Part) (value : Code) (span : Span) : Emit Code :=
  match part with
  | .element array index => storeElement array (.computed index) value span
  | .field object field fieldSpan =>
    match Numeral.int32? field with
    | some index => storeElement object (.fixed index) value span
    | none => throw (.unimplemented (.property field) "." fieldSpan)
  | .length => throw (.badAssignment (.target "[]") span)

/-- An assignment. A name that is assigned a function definition becomes that function's name. -/
def assign (target : Target) (value : Operand) (span : Span) : Emit Code :=
  match target with
  | .name name nameSpan =>
    if value.expr.isFunction then value.code (some name)
    else do
      let v ← storable name nameSpan span
      match ← value.kind with
      | none | some .function => throw (.badAssignment (.noValue name) span)
      | some kind => return store name v (← value.emit) (some kind)
  | .part part => do
    let code ← value.emitAs .f64
    storePart part code span
  | .other label => throw (.badAssignment (.target label) span)

/-- A compound assignment: the target is read, combined with the value, and written. -/
def compound (op : CompoundOp) (target : Target) (old value : Operand) (span : Span) :
    Emit Code := do
  let kind ← Operand.arithmeticKind [old, value]
  match target with
  | .name name nameSpan =>
    let v ← storable name nameSpan span
    let code ← pair (compoundInstructions op) old value
    return store name v code (some kind)
  | .part part =>
    let code ← pair (compoundInstructions op) old value
    storePart part ((Coercion.toFloat (some kind)).apply code) span
  | .other label => throw (.badAssignment (.target label) span)

end Emit

end PatchCompiler
