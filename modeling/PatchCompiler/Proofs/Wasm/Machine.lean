import PatchCompiler.Proofs.Wasm.Heads

/-! # Running code

A stack machine for the instructions of a module. The operands of an instruction run in order and
leave their values on the stack, and the instruction takes what it needs from the top, whichever
operand left it there. Loops run at most a given number of times and calls nest at most to a given
depth; a run that needs more is a `timeout`, so that a run ends exactly if some bound is enough.

How floating-point numbers are computed with is left open: `FloatUnit` is any way to do it. -/

namespace PatchCompiler

namespace Machine

/-- Values of the machine. -/
inductive Value where
  /-- A 32-bit integer. -/
  | int (value : Int32)
  /-- A floating-point number. -/
  | float (value : Binary64)
  deriving DecidableEq, Repr

/-- The value that variables of a type start with. -/
def zero : ValType → Value
  | .i32 => .int 0
  | .f64 => .float ⟨0⟩

/-- A truth value as an integer. -/
def truth (b : Bool) : Int32 := if b then 1 else 0

/-- Linear memory. -/
structure Memory where
  /-- Number of bytes. -/
  size : Nat
  /-- The byte at each address. -/
  byte : Nat → UInt8

namespace Memory

/-- Write bytes from an address on, if they are all inside. -/
def write (memory : Memory) (address : Nat) (bytes : List UInt8) : Option Memory :=
  if address + bytes.length ≤ memory.size then
    some { memory with
      byte := fun a =>
        if address ≤ a then (bytes[a - address]?).getD (memory.byte a) else memory.byte a }
  else none

/-- The integer in the four bytes from an address on, the lowest byte first. -/
def readInt (memory : Memory) (address : Nat) : Option Int32 :=
  if address + 4 ≤ memory.size then
    some (Int32.ofNat ((List.range 4).foldl
      (fun number i => number + (memory.byte (address + i)).toNat <<< (8 * i)) 0))
  else none

/-- The bytes of a number, the lowest one first. -/
def bytes (count number : Nat) : List UInt8 :=
  (List.range count).map fun i => UInt8.ofNat (number >>> (8 * i))

end Memory

/-- What a run of the machine works on. -/
structure Store where
  /-- Global variables. -/
  globals : String → Option Value
  /-- Parameters and local variables of the running function. -/
  locals : String → Option Value
  /-- Memory. -/
  memory : Memory

namespace Store

/-- A store without variables and memory. -/
instance : Inhabited Store := ⟨⟨fun _ => none, fun _ => none, ⟨0, fun _ => 0⟩⟩⟩

/-- Give a global variable a value. -/
def setGlobal (store : Store) (x : String) (v : Value) : Store :=
  { store with globals := fun y => if y = x then some v else store.globals y }

/-- Give a local variable a value. -/
def setLocal (store : Store) (x : String) (v : Value) : Store :=
  { store with locals := fun y => if y = x then some v else store.locals y }

end Store

/-- How a run of code ends. -/
inductive Outcome where
  /-- At the end of the code, with a stack. -/
  | next (store : Store) (stack : List Value)
  /-- By starting a loop again. -/
  | branch (label : Label) (store : Store)
  /-- By leaving the function, with a stack. -/
  | ret (store : Store) (stack : List Value)
  /-- By a fault of an instruction. -/
  | trap
  /-- Not within the bounds. -/
  | timeout

namespace Outcome

/-- Go on after code that ran to its end. -/
def bind (outcome : Outcome) (rest : Store → List Value → Outcome) : Outcome :=
  match outcome with
  | .next store stack => rest store stack
  | other => other

/-- Leave a block: what it left is put on the stack around it. -/
def above (outcome : Outcome) (stack : List Value) : Outcome :=
  outcome.bind fun store inner => .next store (inner ++ stack)

end Outcome

/-- How floating-point numbers are computed with. -/
structure FloatUnit where
  /-- The number that an instruction computes from two others. -/
  compute : FloatOp → Binary64 → Binary64 → Binary64
  /-- Whether a comparison holds. -/
  holds : FloatOp → Binary64 → Binary64 → Bool
  /-- Rounding toward zero, if the result is a 32-bit integer. -/
  truncate : Binary64 → Option Int32

/-- A unit that gives back its first operand. -/
instance : Inhabited FloatUnit := ⟨⟨fun _ a _ => a, fun _ _ _ => false, fun _ => none⟩⟩

/-- What the surroundings of code are: how often a loop may run, and what calls do. -/
structure Context where
  /-- Floating-point arithmetic. -/
  floats : FloatUnit
  /-- How often a loop may run. -/
  bound : Nat
  /-- What a call does to the stack. -/
  call : String → Store → List Value → Outcome

end Machine

open Machine

/-- What an integer instruction computes; the remainder has none by zero. -/
def IntOp.apply : IntOp → Int32 → Int32 → Option Int32
  | .add, a, b => some (a + b)
  | .sub, a, b => some (a - b)
  | .mul, a, b => some (a * b)
  | .lt, a, b => some (truth (decide (a < b)))
  | .le, a, b => some (truth (decide (a ≤ b)))
  | .gt, a, b => some (truth (decide (b < a)))
  | .ge, a, b => some (truth (decide (b ≤ a)))
  | .eq, a, b => some (truth (decide (a = b)))
  | .ne, a, b => some (truth (decide (a ≠ b)))
  | .shl, a, b => some (a <<< b)
  | .rem, a, b => if b = 0 then none else some (a % b)

/-- What an instruction on two floating-point numbers computes. -/
def FloatOp.apply (floats : FloatUnit) (op : FloatOp) (a b : Binary64) : Value :=
  match op with
  | .lt | .le | .gt | .ge | .eq | .ne => .int (truth (floats.holds op a b))
  | _ => .float (floats.compute op a b)

/-- What an instruction does once its operands have run. Blocks are not among them. -/
def Op.step (c : Context) : Op → Store → List Value → Outcome
  | .constInt v, store, stack => .next store (.int v :: stack)
  | .constFloat v, store, stack => .next store (.float v :: stack)
  | .getGlobal x, store, stack =>
    match store.globals x with
    | some v => .next store (v :: stack)
    | none => .trap
  | .getLocal x, store, stack =>
    match store.locals x with
    | some v => .next store (v :: stack)
    | none => .trap
  -- a variable has to be there before it can be written
  | .setGlobal x, store, v :: stack =>
    match store.globals x with
    | some _ => .next (store.setGlobal x v) stack
    | none => .trap
  | .teeLocal x, store, v :: stack =>
    match store.locals x with
    | some _ => .next (store.setLocal x v) (v :: stack)
    | none => .trap
  | .call f, store, stack => c.call f store stack
  -- the operand that ran last is on top
  | .int op, store, .int b :: .int a :: stack =>
    match op.apply a b with
    | some v => .next store (.int v :: stack)
    | none => .trap
  | .float .neg, store, .float a :: stack => .next store (.float a.neg :: stack)
  | .float op, store, .float b :: .float a :: stack =>
    .next store (op.apply c.floats a b :: stack)
  | .convert, store, .int a :: stack => .next store (.float (.ofInt32 a) :: stack)
  | .truncate, store, .float a :: stack =>
    match c.floats.truncate a with
    | some v => .next store (.int v :: stack)
    | none => .trap
  | .loadInt, store, .int a :: stack =>
    match store.memory.readInt a.toUInt32.toNat with
    | some v => .next store (.int v :: stack)
    | none => .trap
  | .storeInt, store, .int v :: .int a :: stack =>
    match store.memory.write a.toUInt32.toNat (Memory.bytes 4 v.toUInt32.toNat) with
    | some memory => .next { store with memory := memory } stack
    | none => .trap
  | .storeFloat, store, .float v :: .int a :: stack =>
    match store.memory.write a.toUInt32.toNat (Memory.bytes 8 v.bits.toNat) with
    | some memory => .next { store with memory := memory } stack
    | none => .trap
  | .select, store, .int test :: b :: a :: stack =>
    .next store ((if test = 0 then b else a) :: stack)
  -- what is on the stack is dropped: a loop starts with an empty one
  | .branch label, store, _ => .branch label store
  | .ret, store, stack => .ret store stack
  -- too few values on the stack, or values of other types
  | _, _, _ => .trap

namespace Op

variable (c : Context) (store : Store) (stack : List Value)

/-- A global variable is read if there is one. -/
@[simp] theorem step_getGlobal (x : String) :
    (getGlobal x).step c store stack
      = match store.globals x with
        | some v => .next store (v :: stack)
        | none => .trap := rfl

/-- A local variable is read if there is one. -/
@[simp] theorem step_getLocal (x : String) :
    (getLocal x).step c store stack
      = match store.locals x with
        | some v => .next store (v :: stack)
        | none => .trap := rfl

/-- A global variable is set if there is one. -/
@[simp] theorem step_setGlobal (x : String) (v : Value) :
    (setGlobal x).step c store (v :: stack)
      = match store.globals x with
        | some _ => .next (store.setGlobal x v) stack
        | none => .trap := rfl

/-- A local variable is set and kept on the stack if there is one. -/
@[simp] theorem step_teeLocal (x : String) (v : Value) :
    (teeLocal x).step c store (v :: stack)
      = match store.locals x with
        | some _ => .next (store.setLocal x v) (v :: stack)
        | none => .trap := rfl

/-- A call does what its function does. -/
@[simp] theorem step_call (f : String) : (call f).step c store stack = c.call f store stack := rfl

/-- An integer operator takes two integers and leaves its result if it has one. -/
@[simp] theorem step_int (op : IntOp) (a b : Int32) :
    (int op).step c store (.int b :: .int a :: stack)
      = match op.apply a b with
        | some v => .next store (.int v :: stack)
        | none => .trap := rfl

/-- An integer is loaded if its address is in memory. -/
@[simp] theorem step_loadInt (a : Int32) :
    loadInt.step c store (.int a :: stack)
      = match store.memory.readInt a.toUInt32.toNat with
        | some v => .next store (.int v :: stack)
        | none => .trap := rfl

/-- A floating-point number is stored if its address is in memory. -/
@[simp] theorem step_storeFloat (v : Binary64) (a : Int32) :
    storeFloat.step c store (.float v :: .int a :: stack)
      = match store.memory.write a.toUInt32.toNat (Memory.bytes 8 v.bits.toNat) with
        | some memory => .next { store with memory := memory } stack
        | none => .trap := rfl

end Op

namespace Machine

/-- Run the body of a loop, from the start again each time it branches to the loop's label. -/
def iterate (label : Label) (body : Store → Outcome) : Nat → Store → Outcome
  | 0, _ => .timeout
  | n + 1, store =>
    match body store with
    | .branch target store' =>
      if target = label then iterate label body n store' else .branch target store'
    -- the end of the body leaves the loop
    | other => other

end Machine

mutual

/-- Run an instruction. A block starts with an empty stack of its own. -/
def Instr.exec (c : Context) : Instr → Store → List Value → Outcome
  | .node op operands, store, stack =>
    match op with
    | .loop label =>
      (iterate label (fun store => Instr.execOperands c operands store []) c.bound store).above
        stack
    | .thenPart => (Instr.execOperands c operands store []).above stack
    | .conditional => Instr.execIf c operands store stack
    | op => (Instr.execOperands c operands store stack).bind (op.step c)

/-- Run the operands of an instruction in order. -/
def Instr.execOperands (c : Context) : List (List (Gap × Instr)) → Store → List Value → Outcome
  | [], store, stack => .next store stack
  | operand :: rest, store, stack =>
    (Instr.execRun c operand store stack).bind (Instr.execOperands c rest)

/-- Run the test of a conditional, and the rest if the test gives a number other than zero. -/
def Instr.execIf (c : Context) : List (List (Gap × Instr)) → Store → List Value → Outcome
  | [], _, _ => .trap
  | test :: rest, store, stack =>
    (Instr.execRun c test store stack).bind fun store stack =>
      match stack with
      | .int v :: stack =>
        if v = 0 then .next store stack else Instr.execOperands c rest store stack
      | _ => .trap

/-- Run instructions one after another. -/
def Instr.execRun (c : Context) : List (Gap × Instr) → Store → List Value → Outcome
  | [], store, stack => .next store stack
  | (_, i) :: rest, store, stack => (i.exec c store stack).bind (Instr.execRun c rest)

end

/-- Run code. -/
def Code.exec (c : Context) (code : Code) (store : Store) (stack : List Value) : Outcome :=
  Instr.execRun c code store stack

/-! ## Functions and modules -/

namespace Func

/-- Parameters and local variables of a function at its start. -/
def start (f : Func) (args : List Value) (x : String) : Option Value :=
  ((f.params.map Prod.fst).zip args ++ f.locals.map fun v => (v.1, zero v.2)).lookup x

/-- Call a function: it takes its arguments from the stack and puts its result there. -/
def call (c : Context) (f : Func) (store : Store) (stack : List Value) : Outcome :=
  if stack.length < f.params.length then .trap
  else
    -- the last argument is on top of the stack
    let args := (stack.take f.params.length).reverse
    let rest := stack.drop f.params.length
    match f.body.exec c { store with locals := f.start args } [] with
    | .next after left | .ret after left =>
      .next { after with locals := store.locals } (left.take f.result.toList.length ++ rest)
    -- a label does not reach out of its function
    | .branch .. => .trap
    | other => other

end Func

namespace Module

/-- The function of a name. -/
def function? (m : Module) (name : String) : Option Func :=
  m.functions.find? (·.name = name)

/-- The surroundings of the code of a module, where loops run at most so often and calls nest at most
so deep. -/
def context (m : Module) (floats : FloatUnit) (bound : Nat) : (depth : Nat) → Context
  | 0 => ⟨floats, bound, fun _ _ _ => .timeout⟩
  | depth + 1 => ⟨floats, bound, fun name store stack =>
      match m.function? name with
      | some f => f.call (m.context floats bound depth) store stack
      | none => .trap⟩

/-- The store that a module starts with: variables are zero, and so is memory. -/
def initial (m : Module) (f : Func) : Store where
  globals x := (m.globals.lookup x).map zero
  locals := f.start []
  memory := ⟨65536 * (m.pages.getD 0).toNat, fun _ => 0⟩

/-- Run the function that a module starts with. The bound holds for loops and, with one more, for
calls. -/
def run (m : Module) (floats : FloatUnit) (bound : Nat) : Outcome :=
  match m.function? initName with
  | some f => f.body.exec (m.context floats bound (bound + 1)) (m.initial f) []
  | none => .trap

end Module

/-! ## Running composed code -/

namespace Machine.Outcome

variable (outcome : Outcome)

/-- What comes after a state and a stack goes on from them. -/
@[simp] theorem next_bind (store : Store) (stack : List Value)
    (rest : Store → List Value → Outcome) : (next store stack).bind rest = rest store stack := rfl

/-- An outcome that goes on without doing anything stays. -/
@[simp] theorem bind_next : outcome.bind next = outcome := by
  cases outcome <;> rfl

/-- Steps after an outcome can be taken together. -/
theorem bind_assoc (f g : Store → List Value → Outcome) :
    (outcome.bind f).bind g = outcome.bind fun store stack => (f store stack).bind g := by
  cases outcome <;> rfl

/-- A stack beneath is put under what is left. -/
@[simp] theorem next_above (store : Store) (stack inner : List Value) :
    (next store inner).above stack = next store (inner ++ stack) := rfl

end Machine.Outcome

namespace Code

variable (c : Context) (store : Store) (stack : List Value)

/-- Empty code changes nothing. -/
@[simp] theorem exec_nil : exec c [] store stack = .next store stack := rfl

/-- Code is executed instruction by instruction. -/
@[simp] theorem exec_cons (gap : Gap) (i : Instr) (code : Code) :
    exec c ((gap, i) :: code) store stack = (i.exec c store stack).bind (code.exec c) := rfl

/-- Code that is put together runs one part after the other. -/
@[simp] theorem exec_append_code (first second : Code) :
    exec c (first ++ second) store stack = (first.exec c store stack).bind (second.exec c) := by
  induction first generalizing store stack with
  | nil => rfl
  | cons i rest ih =>
    rw [List.cons_append, exec_cons, exec_cons, Outcome.bind_assoc]
    congr 1
    funext store stack
    exact ih store stack

/-- The gap in front of code does not matter to its execution. -/
@[simp] theorem exec_lead (gap : Gap) (code : Code) :
    exec c (code.lead gap) store stack = code.exec c store stack := by
  cases code <;> rfl

/-- Two codes with a gap between them are executed in turn. -/
@[simp] theorem exec_append (gap : Gap) (first second : Code) :
    exec c (append gap first second) store stack
      = (first.exec c store stack).bind (second.exec c) := by
  unfold append
  cases first with
  | nil => rfl
  | cons i rest =>
    rw [List.isEmpty_cons, if_neg Bool.false_ne_true, exec_append_code]
    congr 1
    funext store stack
    rw [exec_lead]

/-- An instruction other than a block runs its operands and then takes its own step. -/
theorem exec_one {op : Op} (operands : List Code) (hloop : ∀ label, op ≠ .loop label)
    (hthen : op ≠ .thenPart) (hif : op ≠ .conditional) :
    exec c (one op operands) store stack
      = (Instr.execOperands c operands store stack).bind (op.step c) := by
  show (Instr.exec c (.node op operands) store stack).bind Outcome.next = _
  rw [Outcome.bind_next]
  cases op with
  | loop label => exact absurd rfl (hloop label)
  | thenPart => exact absurd rfl hthen
  | conditional => exact absurd rfl hif
  | _ => rfl

/-- Without operands nothing is executed. -/
@[simp] theorem execOperands_nil : Instr.execOperands c [] store stack = .next store stack := rfl

/-- Operands are executed in turn. -/
@[simp] theorem execOperands_cons (operand : Code) (rest : List Code) :
    Instr.execOperands c (operand :: rest) store stack
      = (operand.exec c store stack).bind (Instr.execOperands c rest) := rfl

/-- No codes that are joined change nothing. -/
@[simp] theorem exec_join_nil (gap : Gap) : exec c (join gap []) store stack = .next store stack :=
  rfl

/-- Codes that are joined are executed in turn. -/
@[simp] theorem exec_join_cons (gap : Gap) (code : Code) (codes : List Code) :
    exec c (join gap (code :: codes)) store stack
      = (code.exec c store stack).bind ((join gap codes).exec c) := by
  rw [join, exec_append]

/-- A loop runs its body as often as it branches to the label. -/
theorem exec_loop (label : Label) (operands : List Code) :
    exec c (one (.loop label) operands) store stack
      = (iterate label (fun store => Instr.execOperands c operands store []) c.bound store).above
        stack := by
  show (Instr.exec c (.node (.loop label) operands) store stack).bind Outcome.next = _
  rw [Outcome.bind_next]
  rfl

/-- A conditional that holds runs its part. -/
theorem exec_conditional (test part : Code) :
    exec c (one .conditional [test, one .thenPart [part]]) store stack
      = (test.exec c store stack).bind fun store stack =>
        match stack with
        | .int v :: stack =>
          if v = 0 then .next store stack else (part.exec c store []).above stack
        | _ => .trap := by
  show (Instr.exec c (.node .conditional [test, one .thenPart [part]]) store stack).bind
    Outcome.next = _
  rw [Outcome.bind_next]
  show (test.exec c store stack).bind _ = _
  congr 1
  funext store stack
  -- only an integer on top decides; with any other stack both sides fault
  cases stack with
  | nil => rfl
  | cons value rest =>
    cases value with
    | float v => rfl
    | int v =>
      simp only
      split
      · rfl
      · -- the operand of the part is a single code, so that the blocks around it add nothing
        show ((((part.exec c store []).bind Outcome.next).above rest).bind Outcome.next).bind
          Outcome.next = _
        rw [Outcome.bind_next, Outcome.bind_next, Outcome.bind_next]

end Code

end PatchCompiler
