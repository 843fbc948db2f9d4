import Mathlib.Data.List.Basic
import PatchCompiler.Proofs.Emission.Rules
import PatchCompiler.Proofs.Wasm.Heads

/-! # Validation of code

The rules by which the code of a module is accepted before it runs. An instruction takes values of
fixed types from the top of the operand stack and puts its result there. A block works on a stack of
its own, which has to be empty again at its end. After an instruction that never goes on to the next
one the stack is loose: values of any type may be taken from it.

Main statements: code that pushes values on every stack composes (`Code.Pushes`), and so do loops and
whole functions. -/

namespace PatchCompiler

namespace Validation

/-- Types of the values that something takes, the top of the stack last, and of its result. -/
abbrev Signature := List ValType × Option ValType

/-- What the functions of a module may refer to. -/
structure Interface where
  /-- Global variables with their types. -/
  globals : List (String × ValType)
  /-- Functions with their types. -/
  functions : List (String × Signature)
  /-- Whether there is a memory. -/
  memory : Bool

/-- What code may refer to. -/
structure Context where
  /-- What the module holds. -/
  interface : Interface
  /-- Parameters and local variables of the function, with their types. -/
  locals : List (String × ValType)
  /-- Type of the function's result, if it has one. -/
  result : Option ValType
  /-- Labels of the enclosing loops. -/
  labels : List Label

/-- What code may refer to inside a loop. -/
def Context.enter (c : Context) (label : Label) : Context := { c with labels := label :: c.labels }

/-- The operand stack of a block as far as it is known, the top first. -/
structure Stack where
  /-- Types of the values; `none` stands for a value of any type. -/
  values : List (Option ValType)
  /-- Whether values of any type may be taken from beneath them. -/
  loose : Bool
  deriving DecidableEq, Repr

namespace Stack

/-- The stack that a block starts with. -/
def empty : Stack := ⟨[], false⟩

/-- The stack after an instruction that never goes on to the next one. -/
def unreachable : Stack := ⟨[], true⟩

/-- Put values on a stack, the top first. -/
def push (types : List ValType) (st : Stack) : Stack :=
  { st with values := types.map some ++ st.values }

/-- Take a value; gives its type as far as it is known. -/
def popAny : Stack → Option (Option ValType × Stack)
  | ⟨type :: rest, loose⟩ => some (type, ⟨rest, loose⟩)
  | ⟨[], true⟩ => some (none, ⟨[], true⟩)
  | ⟨[], false⟩ => none

/-- Take a value of a type. -/
def pop (type : ValType) (st : Stack) : Option Stack :=
  match st.popAny with
  | some (found, rest) => if found = none ∨ found = some type then some rest else none
  | none => none

/-- Take values of types, the top first. -/
def popAll : List ValType → Stack → Option Stack
  | [], st => some st
  | type :: types, st => (st.pop type).bind (popAll types)

/-- Whether a block may end with a stack: it holds the result and nothing else. -/
def ends (result : Option ValType) (st : Stack) : Bool :=
  match st.popAll result.toList with
  | some rest => rest.values.isEmpty
  | none => false

/-- Without types nothing is put on a stack. -/
@[simp] theorem push_nil (st : Stack) : st.push [] = st := rfl

/-- Types are put on a stack in turn. -/
@[simp] theorem push_push (first second : List ValType) (st : Stack) :
    (st.push first).push second = st.push (second ++ first) := by
  simp [push]

/-- A type that was put on a stack can be taken from it. -/
@[simp] theorem pop_push (type : ValType) (types : List ValType) (st : Stack) :
    (st.push (type :: types)).pop type = some (st.push types) := by
  simp [pop, push, popAny]

/-- Values that were just put on a stack can be taken from it. -/
@[simp] theorem popAll_push (types beneath : List ValType) (st : Stack) :
    (st.push (types ++ beneath)).popAll types = some (st.push beneath) := by
  induction types with
  | nil => rfl
  | cons type rest ih => rw [List.cons_append, popAll, pop_push, Option.bind_some, ih]

end Stack

end Validation

open Validation

/-! ## Instructions -/

/-- Type of the result of a floating-point instruction. -/
def FloatOp.resultType : FloatOp → ValType
  | .lt | .le | .gt | .ge | .eq | .ne => .i32
  | _ => .f64

/-- Types of the values that an instruction takes and gives. Blocks, jumps and the choice between two
values have rules of their own. -/
def Op.signature? (c : Context) : Op → Option Signature
  | .constInt _ => some ([], some .i32)
  | .constFloat _ => some ([], some .f64)
  | .getGlobal x => (c.interface.globals.lookup x).map fun type => ([], some type)
  | .getLocal x => (c.locals.lookup x).map fun type => ([], some type)
  | .setGlobal x => (c.interface.globals.lookup x).map fun type => ([type], none)
  | .teeLocal x => (c.locals.lookup x).map fun type => ([type], some type)
  | .call f => c.interface.functions.lookup f
  | .int _ => some ([.i32, .i32], some .i32)
  | .float .neg => some ([.f64], some .f64)
  | .float op => some ([.f64, .f64], some op.resultType)
  | .convert => some ([.i32], some .f64)
  | .truncate => some ([.f64], some .i32)
  | .loadInt => if c.interface.memory then some ([.i32], some .i32) else none
  | .storeInt => if c.interface.memory then some ([.i32, .i32], none) else none
  | .storeFloat => if c.interface.memory then some ([.i32, .f64], none) else none
  -- blocks, jumps and `select`
  | _ => none

section Variables

variable {c : Context} {x : String} {type : ValType}

/-- A global variable that there is leaves its type when it is read. -/
theorem Op.signature?_getGlobal (h : c.interface.globals.lookup x = some type) :
    (getGlobal x).signature? c = some ([], some type) := congrArg (Option.map _) h

/-- A global variable that there is takes its type when it is set. -/
theorem Op.signature?_setGlobal (h : c.interface.globals.lookup x = some type) :
    (setGlobal x).signature? c = some ([type], none) := congrArg (Option.map _) h

/-- A local variable that there is leaves its type when it is read. -/
theorem Op.signature?_getLocal (h : c.locals.lookup x = some type) :
    (getLocal x).signature? c = some ([], some type) := congrArg (Option.map _) h

/-- A local variable that there is takes its type and leaves it when it is set. -/
theorem Op.signature?_teeLocal (h : c.locals.lookup x = some type) :
    (teeLocal x).signature? c = some ([type], some type) := congrArg (Option.map _) h

end Variables

/-- What an instruction other than a block does to the stack once its operands are on it. -/
def Op.check (c : Context) (op : Op) (st : Stack) : Option Stack :=
  match op with
  | .select =>
    (st.pop .i32).bind fun st => st.popAny.bind fun (second, st) => st.popAny.bind fun (first, st) =>
      -- a value of unknown type may stand for the other one's
      if first = none ∨ second = none ∨ first = second then
        some { st with values := first.or second :: st.values }
      else none
  | .branch label => if label ∈ c.labels then some .unreachable else none
  | .ret => (st.popAll c.result.toList).map fun _ => .unreachable
  | op => (op.signature? c).bind fun (taken, given) =>
      (st.popAll taken.reverse).map (·.push given.toList)

/-- An instruction with a signature takes and gives the values of its types. -/
theorem Op.check_of_signature {c : Context} {op : Op} {taken : List ValType}
    {given : Option ValType} (hop : op.signature? c = some (taken, given)) (st : Stack) :
    op.check c st = (st.popAll taken.reverse).map (·.push given.toList) := by
  have hplain : op.check c st = (op.signature? c).bind fun (taken, given) =>
      (st.popAll taken.reverse).map (·.push given.toList) := by
    cases op with
    | select | branch | ret => cases hop
    | _ => rfl
  rw [hplain, hop, Option.bind_some]

mutual

/-- What an instruction does to the stack, if it is accepted. -/
def Instr.check (c : Context) : Instr → Stack → Option Stack
  | .node op operands, st =>
    match op with
    | .loop label =>
      -- what the loop's body works on is not seen outside
      (Instr.checkOperands (c.enter label) operands .empty).bind fun inner =>
        if inner.ends none then some st else none
    | .conditional => Instr.checkIf c operands st
    | .thenPart => none
    | op => (Instr.checkOperands c operands st).bind (op.check c)

/-- What the operands of an instruction do to the stack in turn. -/
def Instr.checkOperands (c : Context) : List (List (Gap × Instr)) → Stack → Option Stack
  | [], st => some st
  | operand :: rest, st => (Instr.checkRun c operand st).bind (Instr.checkOperands c rest)

/-- What a conditional does to the stack: it takes the test, and the part to run is a block. -/
def Instr.checkIf (c : Context) : List (List (Gap × Instr)) → Stack → Option Stack
  -- the part that runs is the only operand besides the test, and a block
  | [test, [(_, .node .thenPart part)]], st =>
    ((Instr.checkRun c test st).bind (·.pop .i32)).bind fun st =>
      (Instr.checkOperands c part .empty).bind fun inner =>
        if inner.ends none then some st else none
  | _, _ => none

/-- What instructions do to the stack in turn. -/
def Instr.checkRun (c : Context) : List (Gap × Instr) → Stack → Option Stack
  | [], st => some st
  | (_, i) :: rest, st => (i.check c st).bind (Instr.checkRun c rest)

end

/-- What code does to the stack, if it is accepted. -/
def Code.check (c : Context) (code : Code) (st : Stack) : Option Stack := Instr.checkRun c code st

/-! ## Functions and modules -/

/-- Type of a function. -/
def Func.signature (f : Func) : Signature := (f.params.map Prod.snd, f.result)

/-- What the code of a function may refer to. -/
def Func.context (f : Func) (i : Interface) : Context := ⟨i, f.params ++ f.locals, f.result, []⟩

/-- A function is accepted: its parameters and local variables have different names, and its code
leaves the result and nothing else. -/
structure Func.Accepted (i : Interface) (f : Func) : Prop where
  /-- Parameters and local variables have different names. -/
  names : ((f.params ++ f.locals).map Prod.fst).Nodup
  /-- The code is accepted and ends with the result. -/
  body : (f.body.check (f.context i) .empty).any (·.ends f.result) = true

namespace Module

/-- What the functions of a module may refer to. -/
def interface (m : Module) : Interface where
  globals := m.globals
  functions := m.functions.map fun f => (f.name, f.signature)
  memory := m.pages.isSome

/-- Names under which a module makes something available; the memory is, if there is one. -/
def exportNames (m : Module) : List String :=
  (if m.pages.isSome then ["memory"] else []) ++ m.exports.map Export.name

/-- A module is accepted. -/
structure Valid (m : Module) : Prop where
  /-- The memory is not larger than addresses reach. -/
  pages : ∀ pages ∈ m.pages, pages.toNat ≤ 65536
  /-- Functions have different names. -/
  functionNames : (m.functions.map Func.name).Nodup
  /-- Global variables have different names. -/
  globalNames : (m.globals.map Prod.fst).Nodup
  /-- Every function is accepted. -/
  functions : ∀ f ∈ m.functions, f.Accepted m.interface
  /-- The function that the module starts with takes and gives nothing. -/
  start : ∃ f ∈ m.functions, f.name = initName ∧ f.signature = ([], none)
  /-- Exports have different names. -/
  exportNames : m.exportNames.Nodup
  /-- Each of them is a function or a global variable of the module. -/
  exports : ∀ e ∈ m.exports,
    e.name ∈ if e.isFunction then m.functions.map Func.name else m.globals.map Prod.fst

end Module

/-! ## Code that is put together -/

namespace Code

variable {c : Context}

/-- Empty code leaves a stack as it is. -/
@[simp] theorem check_nil (st : Stack) : check c [] st = some st := rfl

/-- Code is checked instruction by instruction. -/
@[simp] theorem check_cons (gap : Gap) (i : Instr) (code : Code) (st : Stack) :
    check c ((gap, i) :: code) st = (i.check c st).bind (code.check c) := rfl

/-- Two codes one after another are checked in turn. -/
@[simp] theorem check_append_code (first second : Code) (st : Stack) :
    check c (first ++ second) st = (first.check c st).bind (second.check c) := by
  induction first generalizing st with
  | nil => rfl
  | cons i rest ih =>
    obtain ⟨gap, i⟩ := i
    rw [List.cons_append, check_cons, check_cons, Option.bind_assoc]
    congr 1
    funext st
    exact ih st

/-- The gap in front of code does not matter to its check. -/
@[simp] theorem check_lead (gap : Gap) (code : Code) (st : Stack) :
    check c (code.lead gap) st = code.check c st := by
  cases code <;> rfl

/-- Two codes with a gap between them are checked in turn. -/
@[simp] theorem check_append (gap : Gap) (first second : Code) (st : Stack) :
    check c (append gap first second) st = (first.check c st).bind (second.check c) := by
  unfold append
  cases first with
  | nil => rfl
  | cons i rest =>
    rw [List.isEmpty_cons, if_neg Bool.false_ne_true, check_append_code]
    congr 1
    funext st
    rw [check_lead]

/-- Code leaves values of types, the top first, on whatever stack it starts with. -/
def Pushes (c : Context) (code : Code) (types : List ValType) : Prop :=
  ∀ st, code.check c st = some (st.push types)

/-- Operands leave values of types on whatever stack they start with. -/
def PushAll (c : Context) (operands : List Code) (types : List ValType) : Prop :=
  ∀ st, Instr.checkOperands c operands st = some (st.push types)

variable {code first second : Code} {operands : List Code} {types types' beneath : List ValType}

/-- Empty code leaves nothing. -/
theorem Pushes.nil : Pushes c [] [] := fun _ => rfl

/-- One code after another. -/
theorem Pushes.append_code (h : first.Pushes c types) (h' : second.Pushes c types') :
    Pushes c (first ++ second) (types' ++ types) := by
  intro st
  rw [check_append_code, h, Option.bind_some, h', Stack.push_push]

/-- Two codes with a gap between them leave the values of both. -/
theorem Pushes.append (h : first.Pushes c types) (h' : second.Pushes c types') (gap : Gap) :
    (append gap first second).Pushes c (types' ++ types) := by
  intro st
  rw [check_append, h, Option.bind_some, h', Stack.push_push]

/-- Code that leaves a value holds an instruction. -/
theorem Pushes.ne_nil {type : ValType} (h : code.Pushes c (type :: types)) : code ≠ [] := by
  rintro rfl
  have hempty := h .empty
  simp [Stack.push, Stack.empty] at hempty

/-- Without operands nothing is left. -/
theorem PushAll.nil : PushAll c [] [] := fun _ => rfl

/-- One operand in front of others. -/
theorem PushAll.cons (h : first.Pushes c types) (h' : PushAll c operands types') :
    PushAll c (first :: operands) (types' ++ types) := by
  intro st
  show (first.check c st).bind _ = _
  rw [h, Option.bind_some, h', Stack.push_push]

/-- A single operand. -/
theorem PushAll.singleton (h : code.Pushes c types) : PushAll c [code] types := .cons h .nil

/-- An instruction takes the values of its operands from the stack and puts its result there; what
the first operand left beneath stays. -/
theorem Pushes.one {op : Op} {taken : List ValType} {given : Option ValType}
    (hop : op.signature? c = some (taken, given))
    (h : PushAll c operands (taken.reverse ++ beneath)) :
    (Code.one op operands).Pushes c (given.toList ++ beneath) := by
  intro st
  have hnode : Instr.check c (.node op operands) st
      = (Instr.checkOperands c operands st).bind (op.check c) := by
    cases op <;> first | rfl | cases hop
  show (Instr.check c (.node op operands) st).bind some = _
  rw [Option.bind_fun_some, hnode, h, Option.bind_some, Op.check_of_signature hop,
    Stack.popAll_push, Option.map_some, Stack.push_push]

/-- A loop leaves the stack as it is, if the code in it can end. -/
theorem check_loop (label : Label) (body : Code) (st : Stack) :
    (Code.one (.loop label) [body]).check c st
      = (body.check (c.enter label) .empty).bind fun inner =>
        if inner.ends none then some st else none := by
  show (((body.check (c.enter label) .empty).bind some).bind fun inner =>
    if inner.ends none then some st else none).bind some = _
  rw [Option.bind_fun_some, Option.bind_fun_some]

/-- A conditional takes its test, if the part that runs can end. -/
theorem check_conditional (test part : Code) (st : Stack) :
    (Code.one .conditional [test, .one .thenPart [part]]).check c st
      = ((test.check c st).bind (·.pop .i32)).bind fun st => (part.check c .empty).bind fun inner =>
        if inner.ends none then some st else none := by
  show (((test.check c st).bind (·.pop .i32)).bind fun st =>
    ((part.check c .empty).bind some).bind fun inner =>
      if inner.ends none then some st else none).bind some = _
  rw [Option.bind_fun_some, Option.bind_fun_some]

/-- A loop whose test leaves an integer leaves nothing, whatever its body leaves. -/
theorem Pushes.loopOf {label : Label} {test content : Code}
    (htest : test.Pushes (c.enter label) [.i32])
    (hcontent : content.Pushes (c.enter label) types) :
    (Emit.loopOf label test content).Pushes c [] := by
  intro st
  -- the jump at the end makes the rest of the block unreachable
  have hagain : (content.append .space (.one (.branch label) [])).check (c.enter label) .empty
      = some .unreachable := by
    rw [check_append, hcontent, Option.bind_some]
    have hlabel : label ∈ (c.enter label).labels := List.mem_cons_self
    show (if label ∈ (c.enter label).labels then some Stack.unreachable else none).bind some = _
    rw [if_pos hlabel]
    rfl
  -- so the block of the part may end whatever the body has left
  have hif : (Code.one .conditional
      [test, .one .thenPart [content.append .space (.one (.branch label) [])]]).check
        (c.enter label) .empty = some .empty := by
    rw [check_conditional, hagain, htest, Option.bind_some, Stack.pop_push, Option.bind_some]
    rfl
  rw [Emit.loopOf, check_loop, hif]
  rfl

end Code

/-- A function is accepted whose code leaves the result on top and then returns. -/
theorem Func.accepted_of_pushes {i : Interface} {f : Func} {first second : Code}
    {types beneath : List ValType} (hnames : ((f.params ++ f.locals).map Prod.fst).Nodup)
    (hbody : f.body = (Code.join .newline [first, second, .one .ret []]).lead .newline)
    (hfirst : first.Pushes (f.context i) types)
    (hsecond : second.Pushes (f.context i) (f.result.toList ++ beneath)) : f.Accepted i := by
  refine ⟨hnames, ?_⟩
  have hret : (Code.one .ret []).check (f.context i)
      (.push (f.result.toList ++ (beneath ++ types)) .empty) = some .unreachable := by
    show (Option.map _ (Stack.popAll f.result.toList _)).bind some = _
    rw [Stack.popAll_push]
    rfl
  have hall : f.body.check (f.context i) .empty = some .unreachable := by
    rw [hbody, Code.check_lead]
    rw [Code.join, Code.check_append, hfirst, Option.bind_some, Code.join, Code.check_append,
      hsecond, Option.bind_some, Stack.push_push, List.append_assoc, Code.join, Code.check_append,
      hret]
    rfl
  rw [hall]
  cases f.result <;> rfl

/-- The functions of the library are accepted in every module. -/
theorem Snippet.accepted (i : Interface) (snippet : Snippet) : snippet.func.Accepted i := by
  cases snippet <;> exact ⟨by decide, rfl⟩

end PatchCompiler
