import PatchCompiler.Emit.Kind
import PatchCompiler.Tree.Build

/-! # The code of each form of expression

The code of each form of expression, given the code of its parts. A part is an `Operand`: the
expression together with the step that gives its code. Nothing here is recursive; the
recursion over expressions ties these steps together. -/

namespace PatchCompiler

/-- A part of an expression that is being compiled. -/
structure Operand where
  /-- The expression. -/
  expr : Expr Frame
  /-- Its code, given the name a function definition gets. -/
  code : Option String → Emit Code

namespace Operand

/-- The code of the operand. -/
def emit (o : Operand) : Emit Code := o.code none

/-- Kind of the operand's value. -/
def kind (o : Operand) : Emit (Option Kind) := do return o.expr.kind (← get).env

/-- The code of the operand, brought to a machine type. -/
def emitAs (o : Operand) (type : ValType) : Emit Code := do
  let kind ← o.kind
  let code ← o.emit
  return (Coercion.toType type kind).apply code

/-- The integer constant one. -/
def one : Operand := ⟨Expr.int 1, fun _ => return .int 1⟩

/-- Whether all operands are integers. -/
def allInt (operands : List Operand) : Emit Bool := do
  let env := (← get).env
  return operands.all fun o => o.expr.kind env = some .int

/-- Kind of a result computed from operands. -/
def arithmeticKind (operands : List Operand) : Emit Kind := do
  return if ← allInt operands then .int else .float

end Operand

namespace Emit

/-! ## Lists -/

/-- The code of operands, one after another. -/
def all : List Operand → Emit (List Code)
  | [] => return []
  | o :: rest => do
    let code ← o.emit
    return code :: (← all rest)

/-- The code of operands one after another; a gap separates those that have code. -/
def sequence (gap : Gap) (operands : List Operand) : Emit Code := do
  return .join gap (← all operands)

/-! ## Names, functions and blocks -/

/-- Code that reads a variable. -/
def read (name : String) (v : Variable) : Code :=
  .one (if v.isGlobal then .getGlobal name else .getLocal name) []

/-- A name: functions are no values and have no code. -/
def ident (name : String) (span : Span) : Emit Code := do
  let v ← resolve name span
  return if v.kind = .function then [] else read name v

/-- What is known of a function before its body is compiled. -/
structure Header where
  /-- Name of the function. -/
  name : String
  /-- Names of its parameters, in call order. -/
  params : List String
  /-- Kind of its result, if it has one. -/
  result : Option Kind
  /-- The names it introduces. -/
  frame : Frame
  /-- Where it is defined. -/
  span : Span
  /-- What it is. -/
  role : FuncRole

/-- The parameters of a function with their types; each has to be bound in the function's scope and
counts as declared. -/
def declareParams (frame : Frame) (span : Span) : List String → Emit (List (String × ValType))
  | [] => return []
  | param :: rest => do
    match frame.find? param with
    | none => throw (.unresolved param span)
    | some v =>
      modify fun s => s.mark (frame.slot param)
      return (param, v.kind.paramType) :: (← declareParams frame span rest)

/-- Bring the code of a function's body to the type of its result. -/
def fitResult (result : Option Kind) (body : Operand) (code : Code) : Emit Code := do
  match result with
  | some kind =>
    if code.isEmpty then return code
    else return (Coercion.fit kind.valType (← body.kind)).apply code
  | none => return code

/-- Write a function. The local variables of the enclosing function are put aside meanwhile. -/
def define (header : Header) (prologue : Option Operand) (body : Operand) : Emit Unit := do
  modify fun s => s.record (.function header.name header.params.length)
  let saved ← modifyGet State.takeLocals
  modify fun s => s.enter header.frame
  let params ← declareParams header.frame header.span header.params
  modify fun s => s.recordSignature header.name (params.map Prod.snd)
  modify fun s => s.declareScope header.frame
  let first ← match prologue with
    | some prologue => prologue.emit
    | none => pure []
  -- the kind of the body is that inside its scope, so the scope is left only after this
  let second ← fitResult header.result body (← body.emit)
  modify State.leave
  let locals ← modifyGet fun s => s.restoreLocals saved
  let content := Code.join .newline [first, second, .one .ret []]
  modify fun s => s.pushFunction ⟨header.name, header.role, header.span⟩
    { name := header.name
      params := params
      result := header.result.map Kind.valType
      locals := locals
      body := content.lead .newline }

/-- A block: its variables join those of the enclosing function. -/
def block (frame : Frame) (body : Operand) : Emit Code := do
  modify fun s => (s.enter frame).declareScope frame
  let code ← body.emit
  modify State.leave
  return code

/-- Arguments of a call, converted to the parameter types that are known. -/
def arguments : List ValType → List Operand → Emit (List Code)
  | _, [] => return []
  | [], arg :: rest => do
    let code ← arg.emit
    return code :: (← arguments [] rest)
  | type :: types, arg :: rest => do
    let code ← arg.emitAs type
    return code :: (← arguments types rest)

/-- A call. The parameter types are those of a function begun before; arguments without code are
left out. -/
def call (callee : String) (args : List Operand) : Emit Code := do
  let types := ((← get).signature? callee).getD []
  let codes ← arguments types args
  return .one (.call callee) (codes.filter (!·.isEmpty))

/-! ## Arithmetic -/

/-- The instructions of an operator on integers and on floating-point numbers. -/
structure Instructions where
  /-- On integers. -/
  int : IntOp
  /-- On floating-point numbers. -/
  float : FloatOp

/-- Instructions of a binary operator; there are none yet for bitwise ones. -/
def binaryInstructions? : BinaryOp → Option Instructions
  | .add => some ⟨.add, .add⟩
  | .sub => some ⟨.sub, .sub⟩
  | .mul => some ⟨.mul, .mul⟩
  | .bitOr => none

/-- Instructions of a compound assignment. -/
def compoundInstructions : CompoundOp → Instructions
  | .addAssign => ⟨.add, .add⟩
  | .subAssign => ⟨.sub, .sub⟩

/-- Instructions of a comparison. -/
def compareInstructions : CompareOp → Instructions
  | .lt => ⟨.lt, .lt⟩
  | .le => ⟨.le, .le⟩
  | .gt => ⟨.gt, .gt⟩
  | .ge => ⟨.ge, .ge⟩
  | .eq => ⟨.eq, .eq⟩
  | .ne => ⟨.ne, .ne⟩

/-- An operator on two numbers: on integers if both are, otherwise on floating-point numbers. -/
def pair (ops : Instructions) (left right : Operand) : Emit Code := do
  if ← Operand.allInt [left, right] then
    let l ← left.emit
    let r ← right.emit
    return .one (.int ops.int) [l, r]
  else
    let l ← left.emitAs .f64
    let r ← right.emitAs .f64
    return .one (.float ops.float) [l, r]

/-- A negation: literals are negated here, decimal numbers by an instruction, and all else is
subtracted from zero. -/
def neg (operand : Operand) : Emit Code := do
  match operand.expr.node with
  | .intLit value => return .int (-value)
  | .floatLit value => return .float value.neg
  | _ =>
    if (← operand.kind) = some .float then
      return .one (.float .neg) [← operand.emit]
    else
      return .one (.int .sub) [.int 0, ← operand.emit]

/-- A clamp: the lesser of the value and the upper end, and of that and the lower end the greater
one. -/
def clamp (value low high : Operand) : Emit Code := do
  if ← Operand.allInt [value, low, high] then
    modify fun s => (s.require .max).require .min
    -- the value goes first, then the upper end: `min` takes both before `max` takes the lower end
    let v ← value.emit
    let h ← high.emit
    let l ← low.emit
    return .one (.call Snippet.max.name) [.one (.call Snippet.min.name) [v, h], l]
  else
    let v ← value.emitAs .f64
    let h ← high.emitAs .f64
    let l ← low.emitAs .f64
    return .one (.float .max) [.one (.float .min) [v, h], l]

/-! ## Loops -/

/-- A loop: a label that counts the enclosing loops, a test, and the body followed by a branch to
the label. A decimal number holds as a test when it is not zero. -/
def loop (cond body : Operand) : Emit Code := do
  modify State.enterLoop
  let label := (← get).loopDepth
  let test ← cond.emit
  let test :=
    if (← cond.kind) = some .float then Code.one (.float .ne) [test, .float ⟨0⟩] else test
  let content ← body.emit
  modify State.exitLoop
  let again := content.append .space (.one (.branch label) [])
  return .one (.loop label) [.one .conditional [test, .one .thenPart [again]]]

end Emit

end PatchCompiler
