import PatchCompiler.Emit.Operand
import PatchCompiler.Proofs.Wasm.Machine

/-! # Integer arithmetic

What the operators of the language compute on 32-bit integers: sums, differences and products wrap
around, comparisons are signed and give one or zero, and a clamp is the greater one of the lower end
and of the lesser one of the value and the upper end. Main statements: the instructions and the
library functions that the compiler chooses compute just that. -/

namespace PatchCompiler

open Machine

/-- What a binary operator computes on integers. -/
def BinaryOp.eval : BinaryOp → Int32 → Int32 → Int32
  | .add, a, b => a + b
  | .sub, a, b => a - b
  | .mul, a, b => a * b
  | .bitOr, a, b => a ||| b

/-- Whether a comparison holds of two integers. -/
def CompareOp.eval : CompareOp → Int32 → Int32 → Bool
  | .lt, a, b => decide (a < b)
  | .le, a, b => decide (a ≤ b)
  | .gt, a, b => decide (b < a)
  | .ge, a, b => decide (b ≤ a)
  | .eq, a, b => decide (a = b)
  | .ne, a, b => decide (a ≠ b)

/-- The instruction of a binary operator computes what the operator does. -/
theorem apply_of_binaryInstructions {op : BinaryOp} {ops : Emit.Instructions}
    (h : Emit.binaryInstructions? op = some ops) (a b : Int32) :
    ops.int.apply a b = some (op.eval a b) := by
  cases op <;> cases h <;> rfl

/-- The instruction of a comparison computes what the comparison does. -/
theorem apply_compareInstructions (op : CompareOp) (a b : Int32) :
    (Emit.compareInstructions op).int.apply a b = some (truth (op.eval a b)) := by
  cases op <;> rfl

/-- The instruction of a compound assignment computes what its operator does. -/
theorem apply_compoundInstructions (op : CompoundOp) (a b : Int32) :
    (Emit.compoundInstructions op).int.apply a b = some (op.binary.eval a b) := by
  cases op <;> rfl

namespace IntOp

/-- The sum of two integers. -/
theorem apply_add (a b : Int32) : IntOp.add.apply a b = some (a + b) := rfl

/-- The difference of two integers. -/
theorem apply_sub (a b : Int32) : IntOp.sub.apply a b = some (a - b) := rfl

/-- An integer is shifted to the left. -/
theorem apply_shl (a b : Int32) : IntOp.shl.apply a b = some (a <<< b) := rfl

/-- The remainder by an integer other than zero. -/
theorem apply_rem (a : Int32) {b : Int32} (hb : b ≠ 0) : IntOp.rem.apply a b = some (a % b) :=
  if_neg hb

end IntOp

/-! ## Instructions on two integers -/

/-- An instruction that replaces the two integers on top of the stack by one. -/
structure Op.Computes (c : Context) (op : Op) (f : Int32 → Int32 → Int32) : Prop where
  /-- It is no block. -/
  plain : (∀ label, op ≠ .loop label) ∧ op ≠ .thenPart ∧ op ≠ .conditional
  /-- The upper one is the second operand. -/
  step : ∀ store a b rest,
    op.step c store (.int b :: .int a :: rest) = .next store (.int (f a b) :: rest)

/-- An integer instruction that never faults computes its function. -/
theorem IntOp.computes {op : IntOp} {f : Int32 → Int32 → Int32}
    (hop : ∀ a b, op.apply a b = some (f a b)) (c : Context) : (Op.int op).Computes c f := by
  refine ⟨by simp, fun store a b rest => ?_⟩
  rw [Op.step_int, hop]

namespace Code

variable {c : Context} {store : Store} {stack : List Value}

/-- An integer constant puts its value on the stack. -/
@[simp] theorem exec_int (v : Int32) :
    (Code.int v).exec c store stack = .next store (.int v :: stack) := rfl

/-- An instruction with two operands takes its step on what they leave. -/
theorem exec_two {op : Op} (hop : (∀ label, op ≠ .loop label) ∧ op ≠ .thenPart ∧ op ≠ .conditional)
    {l r : Code} {store₁ store₂ : Store} {below top : List Value}
    (hl : l.exec c store stack = .next store₁ below)
    (hr : r.exec c store₁ below = .next store₂ top) :
    (Code.one op [l, r]).exec c store stack = op.step c store₂ top := by
  obtain ⟨hloop, hthen, hif⟩ := hop
  rw [exec_one c store stack [l, r] hloop hthen hif, execOperands_cons, hl, Outcome.next_bind,
    execOperands_cons, hr, Outcome.next_bind, execOperands_nil, Outcome.next_bind]

/-- The instruction takes the two values on top of the stack, whichever operand left them there. -/
theorem exec_of_computes {op : Op} {f : Int32 → Int32 → Int32} (hop : op.Computes c f) {l r : Code}
    {store₁ store₂ : Store} {below rest : List Value} {a b : Int32}
    (hl : l.exec c store stack = .next store₁ below)
    (hr : r.exec c store₁ below = .next store₂ (.int b :: .int a :: rest)) :
    (Code.one op [l, r]).exec c store stack = .next store₂ (.int (f a b) :: rest) := by
  rw [exec_two hop.plain hl hr, hop.step]

/-- An integer instruction that does not fault on the two integers on top of the stack. -/
theorem exec_intOp {op : IntOp} {l r : Code} {store₁ store₂ : Store} {below rest : List Value}
    {a b v : Int32} (hl : l.exec c store stack = .next store₁ below)
    (hr : r.exec c store₁ below = .next store₂ (.int b :: .int a :: rest))
    (hv : op.apply a b = some v) :
    (Code.one (.int op) [l, r]).exec c store stack = .next store₂ (.int v :: rest) := by
  rw [exec_two (by simp) hl hr, Op.step_int, hv]

end Code

/-! ## Library functions -/

/-- A library function that a module includes is found under its name. -/
theorem Module.function?_name {m : Module} {snippet : Snippet} (h : snippet ∈ m.snippets) :
    m.function? snippet.name = some snippet.func := by
  unfold function? functions
  rw [List.find?_append, List.find?_map]
  -- names of library functions differ, so the first function of the name is this one
  have hfind : m.snippets.find? ((fun f : Func => decide (f.name = snippet.name)) ∘ Snippet.func)
      = some snippet := by
    cases hfound : m.snippets.find? ((fun f : Func => decide (f.name = snippet.name)) ∘ Snippet.func)
      with
    | none =>
      have hne := List.find?_eq_none.1 hfound snippet h
      exact absurd (show snippet.func.name = snippet.name from rfl) (by simpa using hne)
    | some other =>
      have hname : other.func.name = snippet.name := by simpa using List.find?_some hfound
      rw [Snippet.name_injective hname]
  rw [hfind]
  rfl

/-- The lesser one of two integers is chosen by a comparison. -/
theorem Func.call_min (c : Context) (store : Store) (stack : List Value) (a b : Int32) :
    Snippet.min.func.call c store (.int b :: .int a :: stack)
      = .next store (.int (min a b) :: stack) := by
  have hcall : Snippet.min.func.call c store (.int b :: .int a :: stack)
      = .next store ((if truth (decide (a < b)) = 0 then .int b else .int a) :: stack) := rfl
  -- the function compares strictly, `min` does not: at equal numbers either one will do
  rw [hcall, show min a b = if a ≤ b then a else b from rfl]
  by_cases hlt : a < b
  · rw [if_pos (Int32.le_of_lt hlt), decide_eq_true hlt]
    rfl
  · rw [decide_eq_false hlt]
    by_cases hle : a ≤ b
    · rw [if_pos hle, Int32.le_antisymm hle (Int32.not_lt.1 hlt)]
      rfl
    · rw [if_neg hle]
      rfl

/-- The greater one of two integers is chosen by a comparison. -/
theorem Func.call_max (c : Context) (store : Store) (stack : List Value) (a b : Int32) :
    Snippet.max.func.call c store (.int b :: .int a :: stack)
      = .next store (.int (max a b) :: stack) := by
  have hcall : Snippet.max.func.call c store (.int b :: .int a :: stack)
      = .next store ((if truth (decide (b < a)) = 0 then .int b else .int a) :: stack) := rfl
  rw [hcall, show max a b = if a ≤ b then b else a from rfl]
  by_cases hle : a ≤ b
  · rw [if_pos hle, decide_eq_false (Int32.not_lt.2 hle)]
    rfl
  · rw [if_neg hle, decide_eq_true (Int32.not_le.1 hle)]
    rfl

section

variable {m : Module} (floats : FloatUnit) (bound depth : Nat)

/-- Calling the library function `min` computes the lesser one of two integers. -/
theorem Module.computes_min (h : .min ∈ m.snippets) :
    (Op.call Snippet.min.name).Computes (m.context floats bound (depth + 1)) min := by
  refine ⟨by simp, fun store a b rest => ?_⟩
  simp only [Op.step_call, context, function?_name h]
  exact Func.call_min _ store rest a b

/-- Calling the library function `max` computes the greater one of two integers. -/
theorem Module.computes_max (h : .max ∈ m.snippets) :
    (Op.call Snippet.max.name).Computes (m.context floats bound (depth + 1)) max := by
  refine ⟨by simp, fun store a b rest => ?_⟩
  simp only [Op.step_call, context, function?_name h]
  exact Func.call_max _ store rest a b

end

end PatchCompiler
