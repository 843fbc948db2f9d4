import PatchCompiler.Proofs.Emission.Rules
import PatchCompiler.Proofs.Wasm.Heads

/-! # Stores to fixed addresses

`Code.collect` gathers what a function reads off each instruction of a code together with its
operands. The stores whose address is a constant are gathered this way: they are the ones that fill
in array literals, and the bytes that they write are known before the program runs. -/

namespace PatchCompiler

/-! ## Reading off instructions -/

section Collect

variable {α : Type} (f : Op → List Code → List α)

mutual

/-- What a function reads off an instruction and the instructions of its operands. -/
def Instr.collect : Instr → List α
  | .node op operands => f op operands ++ Instr.collectOperands operands

/-- What a function reads off the operands of an instruction. -/
def Instr.collectOperands : List (List (Gap × Instr)) → List α
  | [] => []
  | operand :: rest => Instr.collectRun operand ++ Instr.collectOperands rest

/-- What a function reads off a run of instructions. -/
def Instr.collectRun : List (Gap × Instr) → List α
  | [] => []
  | (_, i) :: rest => i.collect ++ Instr.collectRun rest

end

namespace Code

/-- What a function reads off each instruction of a code and its operands, in the order they are
written. -/
def collect (code : Code) : List α := Instr.collectRun f code

/-- Nothing is collected from empty code. -/
@[simp] theorem collect_nil : collect f [] = [] := rfl

/-- What is collected from two codes follows each other. -/
@[simp] theorem collect_append_code (first second : Code) :
    collect f (first ++ second) = collect f first ++ collect f second := by
  induction first with
  | nil => rfl
  | cons i rest ih =>
    show i.2.collect f ++ collect f (rest ++ second) = i.2.collect f ++ collect f rest ++ _
    rw [ih, List.append_assoc]

/-- The operands of an instruction are read one after another. -/
theorem collectOperands_eq (operands : List Code) :
    Instr.collectOperands f operands = operands.flatMap (collect f) := by
  induction operands with
  | nil => rfl
  | cons operand rest ih =>
    show collect f operand ++ Instr.collectOperands f rest = _
    rw [ih, List.flatMap_cons]

/-- From an instruction its own part is collected, and those of its operands. -/
@[simp] theorem collect_one (op : Op) (operands : List Code) :
    collect f (one op operands) = f op operands ++ operands.flatMap (collect f) := by
  show f op operands ++ Instr.collectOperands f operands ++ [] = _
  rw [List.append_nil, collectOperands_eq]

/-- The gap in front of code does not matter to what is collected. -/
@[simp] theorem collect_lead (gap : Gap) (code : Code) :
    collect f (code.lead gap) = collect f code := by
  cases code <;> rfl

/-- What is collected from two codes with a gap between them follows each other. -/
@[simp] theorem collect_append (gap : Gap) (first second : Code) :
    collect f (append gap first second) = collect f first ++ collect f second := by
  unfold append
  cases first with
  | nil => rfl
  | cons i rest =>
    rw [List.isEmpty_cons, if_neg Bool.false_ne_true, collect_append_code, collect_lead]

/-- What is collected from codes that are joined follows each other. -/
@[simp] theorem collect_join (gap : Gap) (codes : List Code) :
    collect f (join gap codes) = codes.flatMap (collect f) := by
  induction codes with
  | nil => rfl
  | cons code rest ih => rw [join, collect_append, ih, List.flatMap_cons]

/-- What is collected from codes one after another follows each other. -/
@[simp] theorem collect_flatten (codes : List Code) :
    collect f codes.flatten = codes.flatMap (collect f) := by
  induction codes with
  | nil => rfl
  | cons code rest ih => rw [List.flatten_cons, collect_append_code, ih, List.flatMap_cons]

/-- Nothing was collected from empty codes that are left out. -/
@[simp] theorem flatMap_collect_filter (codes : List Code) :
    (codes.filter (!·.isEmpty)).flatMap (collect f) = codes.flatMap (collect f) :=
  flatMap_filter_nonempty (collect_nil f) codes

end Code

end Collect

/-! ## Stores -/

/-- A store to a fixed address: the bytes that it writes. -/
structure FixedStore where
  /-- The first byte. -/
  address : Nat
  /-- How many bytes are written. -/
  width : Nat
  deriving DecidableEq, Repr

/-- The integer that a code is a constant of. -/
def Code.constant? : Code → Option Int32
  | [(_, .node (.constInt value) [])] => some value
  | _ => none

/-- The store of a number of bytes with operands, if the first one of them is a fixed address.
Addresses are unsigned. -/
def FixedStore.ofOperands (width : Nat) (operands : List Code) : List FixedStore :=
  ((operands.head?.bind Code.constant?).map fun value => ⟨value.toUInt32.toNat, width⟩).toList

/-- The store that an instruction with its operands is, if it has a fixed address. -/
def Op.fixedStores (op : Op) (operands : List Code) : List FixedStore :=
  match op with
  | .storeInt => FixedStore.ofOperands 4 operands
  | .storeFloat => FixedStore.ofOperands 8 operands
  | _ => []

/-- The stores of a code to fixed addresses, in the order they are written. -/
abbrev Code.fixedStores (code : Code) : List FixedStore := code.collect Op.fixedStores

/-- An integer constant stores nothing. -/
@[simp] theorem Code.fixedStores_int (value : Int32) : (int value).fixedStores = [] := rfl

/-- A floating-point constant stores nothing. -/
@[simp] theorem Code.fixedStores_float (value : Binary64) : (float value).fixedStores = [] := rfl

/-- A constant address is read back as an unsigned number. -/
theorem toNat_toUInt32_ofInt (a : Nat) :
    (Int32.ofInt (a : Int)).toUInt32.toNat = a % UInt32.size := by
  rw [Int32.ofInt_eq_ofNat]
  show (Int32.ofNat a).toUInt32.toNat = a % UInt32.size
  rw [Int32.toUInt32_ofNat']
  exact UInt32.toNat_ofNat'

end PatchCompiler
