import Mathlib.Data.List.Basic
import PatchCompiler.Wasm.Module

/-! # The parts of a module and of its code

`Module.funcs` and `Module.globals` are the functions and the global variables of a module.
`Code.heads` lists the heads of all instructions of a code in the order they are written. It turns
statements about every instruction of a function into statements about members of a list. -/

namespace PatchCompiler

/-! ## Functions and global variables -/

/-- The function that a form is, if it is one. -/
def Form.func? : Form → Option Func
  | .func f => some f
  | _ => none

/-- The global variable that a form is, with its type, if it is one. -/
def Form.global? : Form → Option (String × ValType)
  | .globalVar x type => some (x, type)
  | _ => none

/-- The functions of a module, apart from those of the library. -/
def Module.funcs (m : Module) : List Func := m.forms.filterMap Form.func?

/-- All functions of a module, those of the library first. -/
def Module.functions (m : Module) : List Func := m.snippets.map Snippet.func ++ m.funcs

/-- The global variables of a module. -/
def Module.globals (m : Module) : List (String × ValType) := m.forms.filterMap Form.global?

/-- Different library functions have different names. -/
theorem Snippet.name_injective : Function.Injective Snippet.name := by
  intro a b h
  cases a <;> cases b <;> first | rfl | exact absurd h (by decide)

/-! ## Heads -/

mutual

/-- Heads of an instruction and of its operands, in the order they are written. -/
def Instr.heads : Instr → List Op
  | .node op operands => op :: Instr.headsOperands operands

/-- Heads of the operands of an instruction. -/
def Instr.headsOperands : List (List (Gap × Instr)) → List Op
  | [] => []
  | operand :: rest => Instr.headsRun operand ++ Instr.headsOperands rest

/-- Heads of a run of instructions. -/
def Instr.headsRun : List (Gap × Instr) → List Op
  | [] => []
  | (_, i) :: rest => i.heads ++ Instr.headsRun rest

end

namespace Code

/-- Heads of all instructions of a code, in the order they are written. -/
def heads (code : Code) : List Op := Instr.headsRun code

/-- Empty code has no instructions. -/
@[simp] theorem heads_nil : heads [] = [] := rfl

/-- The instructions of two codes follow each other. -/
@[simp] theorem heads_append_code (first second : Code) :
    heads (first ++ second) = heads first ++ heads second := by
  induction first with
  | nil => rfl
  | cons i rest ih =>
    show i.2.heads ++ heads (rest ++ second) = i.2.heads ++ heads rest ++ heads second
    rw [ih, List.append_assoc]

/-- The heads of the operands of an instruction are those of each operand in turn. -/
theorem headsOperands_eq (operands : List Code) :
    Instr.headsOperands operands = operands.flatMap heads := by
  induction operands with
  | nil => rfl
  | cons operand rest ih =>
    show heads operand ++ Instr.headsOperands rest = _
    rw [ih, List.flatMap_cons]

/-- An instruction comes before those of its operands. -/
@[simp] theorem heads_one (op : Op) (operands : List Code) :
    (one op operands).heads = op :: operands.flatMap heads := by
  show op :: Instr.headsOperands operands ++ [] = _
  rw [List.append_nil, headsOperands_eq]

/-- An integer constant is one instruction. -/
@[simp] theorem heads_int (value : Int32) : (int value).heads = [.constInt value] := rfl

/-- A floating-point constant is one instruction. -/
@[simp] theorem heads_float (value : Binary64) : (float value).heads = [.constFloat value] := rfl

/-- The gap in front of code does not matter to its instructions. -/
@[simp] theorem heads_lead (gap : Gap) (code : Code) : (code.lead gap).heads = code.heads := by
  cases code <;> rfl

/-- The instructions of two codes with a gap between them follow each other. -/
@[simp] theorem heads_append (gap : Gap) (first second : Code) :
    (append gap first second).heads = first.heads ++ second.heads := by
  unfold append
  cases first with
  | nil => rfl
  | cons i rest =>
    rw [List.isEmpty_cons, if_neg Bool.false_ne_true, heads_append_code, heads_lead]

/-- The instructions of codes that are joined follow each other. -/
@[simp] theorem heads_join (gap : Gap) (codes : List Code) :
    (join gap codes).heads = codes.flatMap heads := by
  induction codes with
  | nil => rfl
  | cons code rest ih => rw [join, heads_append, ih, List.flatMap_cons]

/-- The instructions of codes one after another follow each other. -/
@[simp] theorem heads_flatten (codes : List Code) :
    heads codes.flatten = codes.flatMap heads := by
  induction codes with
  | nil => rfl
  | cons code rest ih => rw [List.flatten_cons, heads_append_code, ih, List.flatMap_cons]

/-- Operands without code contribute nothing to what is read off them. -/
theorem flatMap_filter_nonempty {β : Type} {f : Code → List β} (hf : f [] = [])
    (codes : List Code) : (codes.filter (!·.isEmpty)).flatMap f = codes.flatMap f := by
  induction codes with
  | nil => rfl
  | cons code rest ih =>
    cases code with
    | nil => simpa [hf] using ih
    | cons i code => simpa using ih

/-- Empty codes that are left out had no instructions. -/
@[simp] theorem flatMap_heads_filter (codes : List Code) :
    (codes.filter (!·.isEmpty)).flatMap heads = codes.flatMap heads :=
  flatMap_filter_nonempty heads_nil codes

/-! ## Instructions of one sort -/

section Pick

variable {α : Type} (f : Op → Option α)

/-- What a function reads off the instructions of a code, in order. -/
def pick (code : Code) : List α := code.heads.filterMap f

/-- Nothing is picked from empty code. -/
@[simp] theorem pick_nil : pick f [] = [] := rfl

/-- Picking from the heads of several codes is picking from each of them. -/
theorem filterMap_flatMap_heads (codes : List Code) :
    (codes.flatMap heads).filterMap f = codes.flatMap (pick f) := by
  rw [List.filterMap_flatMap]
  rfl

/-- What is picked from two codes follows each other. -/
@[simp] theorem pick_append_code (first second : Code) :
    pick f (first ++ second) = pick f first ++ pick f second := by
  rw [pick, heads_append_code, List.filterMap_append]
  rfl

/-- An instruction is picked before those of its operands. -/
@[simp] theorem pick_one (op : Op) (operands : List Code) :
    pick f (one op operands) = (f op).toList ++ operands.flatMap (pick f) := by
  rw [pick, heads_one, List.filterMap_cons, filterMap_flatMap_heads]
  cases f op <;> rfl

/-- An integer constant is picked or not. -/
@[simp] theorem pick_int (value : Int32) : pick f (int value) = (f (.constInt value)).toList := by
  rw [int, pick_one, List.flatMap_nil, List.append_nil]

/-- A floating-point constant is picked or not. -/
@[simp] theorem pick_float (value : Binary64) :
    pick f (float value) = (f (.constFloat value)).toList := by
  rw [float, pick_one, List.flatMap_nil, List.append_nil]

/-- The gap in front of code does not matter to what is picked. -/
@[simp] theorem pick_lead (gap : Gap) (code : Code) : pick f (code.lead gap) = pick f code := by
  rw [pick, heads_lead]
  rfl

/-- What is picked from two codes with a gap between them follows each other. -/
@[simp] theorem pick_append (gap : Gap) (first second : Code) :
    pick f (append gap first second) = pick f first ++ pick f second := by
  rw [pick, heads_append, List.filterMap_append]
  rfl

/-- What is picked from codes that are joined follows each other. -/
@[simp] theorem pick_join (gap : Gap) (codes : List Code) :
    pick f (join gap codes) = codes.flatMap (pick f) := by
  rw [pick, heads_join, filterMap_flatMap_heads]

/-- What is picked from codes one after another follows each other. -/
@[simp] theorem pick_flatten (codes : List Code) :
    pick f codes.flatten = codes.flatMap (pick f) := by
  rw [pick, heads_flatten, filterMap_flatMap_heads]

/-- Nothing was picked from empty codes that are left out. -/
@[simp] theorem flatMap_pick_filter (codes : List Code) :
    (codes.filter (!·.isEmpty)).flatMap (pick f) = codes.flatMap (pick f) := by
  rw [← filterMap_flatMap_heads, flatMap_heads_filter, filterMap_flatMap_heads]

end Pick

end Code

end PatchCompiler
