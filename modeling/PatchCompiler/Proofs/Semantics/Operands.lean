import PatchCompiler.Proofs.Emission.Derive
import PatchCompiler.Proofs.Emission.Growth
import PatchCompiler.Proofs.Semantics.Arithmetic

/-! # What operators work on

An operation on integers is a first operand and operators that are applied to it one after another,
each with an operand of its own. An instruction takes the two values on top of the stack, so it
works on the values of its own operands if the second one leaves a single value. A list leaves the
values of all its members: as a second operand it hides the first one. -/

namespace PatchCompiler

open Machine

/-! ## Operations -/

/-- An operator that is applied to what has been computed so far and to one more operand. -/
structure Application (α : Type) where
  /-- What the operator computes. -/
  eval : Int32 → Int32 → Int32
  /-- Its second operand. -/
  operand : α

/-- An operation on integers: the operand it starts with, and the operators in the order they are
applied. A negation is a difference from zero. -/
def Expr.operation? : Expr Frame → Option (Expr Frame × List (Application (Expr Frame)))
  | .mk (.neg operand) _ _ => some (.int 0, [⟨BinaryOp.sub.eval, operand⟩])
  | .mk (.binary op left right) _ _ => some (left, [⟨op.eval, right⟩])
  | .mk (.compare op left right) _ _ => some (left, [⟨fun a b => truth (op.eval a b), right⟩])
  | .mk (.clamp value (.mk (.range (some low) (some high)) _ _)) _ _ =>
    some (value, [⟨min, high⟩, ⟨max, low⟩])
  | _ => none

/-- The result of operators that are applied one after another to a first value and to values of
their own. -/
def applyAll (first : Int32) : List (Int32 → Int32 → Int32) → List Int32 → Int32
  | f :: fs, b :: bs => applyAll (f first b) fs bs
  | _, _ => first

/-- Code that runs to its end and leaves values above what was on the stack. -/
def Code.Leaves (c : Context) (code : Code) (store : Store) (stack : List Value) (after : Store)
    (values : List Value) : Prop :=
  code.exec c store stack = .next after (values ++ stack)

/-- Runs of the operands after the first one. What the operators have left so far is `values`; the
operands leave `left`, and each operator takes the two integers that are on top then. -/
inductive Consumes (c : Context) (stack : List Value) :
    Store → List Value → List (Application Code) → List (List Value) → Store → List Value → Prop
  | nil {store values} : Consumes c stack store values [] [] store values
  | cons {store after last values operand left result eval code rest a b below} :
    code.Leaves c store (values ++ stack) after operand →
    operand ++ values = .int b :: .int a :: below →
    Consumes c stack after (.int (eval a b) :: below) rest left last result →
    Consumes c stack store values (⟨eval, code⟩ :: rest) (operand :: left) last result

namespace Consumes

variable {c : Context} {stack values result : List Value} {store after : Store}
  {steps : List (Application Code)} {left : List (List Value)}

/-- If every operand after the first one leaves a single integer, the operators work on the values
of their own operands. -/
theorem isolated (h : Consumes c stack store values steps left after result) {a : Int32}
    {below : List Value} (hvalues : values = .int a :: below) {bs : List Int32}
    (hleft : left = bs.map fun b => [.int b]) :
    result = .int (applyAll a (steps.map Application.eval) bs) :: below := by
  induction h generalizing a below bs with
  | nil => exact hvalues
  | @cons store after last values operand left result eval code rest x y below' _ htop _ ih =>
    cases bs with
    | nil => cases hleft
    | cons b bs =>
      rw [List.map_cons, List.cons.injEq] at hleft
      obtain ⟨rfl, rfl⟩ := hleft
      -- the two values on top are the operand's single one and what was computed before
      subst hvalues
      cases htop
      exact ih rfl rfl

/-- If the last operand leaves more than one integer, the last operator works on the two uppermost
ones of them. -/
theorem overlaid (h : Consumes c stack store values steps left after result)
    {f : Int32 → Int32 → Int32} (hf : (steps.map Application.eval).getLast? = some f)
    {x y : Int32} {more : List Value} (hleft : left.getLast? = some (.int y :: .int x :: more)) :
    result.head? = some (.int (f x y)) := by
  induction h with
  | nil => cases hf
  | @cons store after last values operand left result eval code rest a b below _ htop hrest ih =>
    cases hrest with
    -- the last operator: both values on top are from its operand
    | nil =>
      cases hf
      cases hleft
      cases htop
      rfl
    | cons hcode htop' hrest =>
      -- an operator before the last one does not matter for the top
      rw [List.map_cons, List.map_cons, List.getLast?_cons_cons] at hf
      rw [List.getLast?_cons_cons] at hleft
      exact ih hf hleft

end Consumes

/-! ## The code of an operation -/

/-- Instructions applied one after another to the code of a first operand. -/
def Code.chain (first : Code) (steps : List (Op × Code)) : Code :=
  steps.foldl (fun code step => .one step.1 [code, step.2]) first

/-- Instructions that compute what the operators do leave what the operators leave. -/
theorem Code.leaves_chain {c : Context} {stack values result : List Value}
    {store middle after : Store} {first : Code} {steps : List (Application Code)}
    {left : List (List Value)} {ops : List Op} (hfirst : first.Leaves c store stack middle values)
    (hrest : Consumes c stack middle values steps left after result)
    (hops : List.Forall₂ (Op.Computes c) ops (steps.map Application.eval)) :
    (first.chain (ops.zip (steps.map Application.operand))).Leaves c store stack after result := by
  induction hrest generalizing first ops with
  | nil =>
    cases hops
    exact hfirst
  | @cons middle next last values operand left result eval code rest a b below hcode htop _ ih =>
    cases hops with
    | @cons op _ ops _ hop hops =>
      refine @ih (.one op [first, code]) ops ?_ hops
      have hcode : code.exec c middle (values ++ stack) = _ := hcode
      rw [← List.append_assoc, htop] at hcode
      exact exec_of_computes hop hfirst hcode

namespace Emit

variable {s s' : State} {code : Code}

/-- The code of an operator on two integers. -/
theorem pair_int {ops : Instructions} {left right : Expr Frame}
    (hint : Kind.allInt [left.kind s.env, right.kind s.env])
    (h : pair ops ⟨left, left.emit⟩ ⟨right, right.emit⟩ s = .ok code s') :
    ∃ l r, all (Expr.operands [left, right]) s = .ok [l, r] s' ∧
      code = .one (.int ops.int) [l, r] := by
  simp only [pair, bind_eq_ok, Operand.allInt_eq_ok] at h
  obtain ⟨answer, _, ⟨rfl, rfl⟩, h⟩ := h
  rw [if_pos (by simpa [Kind.allInt] using hint)] at h
  simp only [bind_eq_ok] at h
  obtain ⟨l, s₁, hl, r, s₂, hr, h⟩ := h
  obtain ⟨rfl, rfl⟩ := pure_eq_ok.1 h
  refine ⟨l, r, ?_, rfl⟩
  simp only [Expr.operands, all, bind_eq_ok, pure_eq_ok]
  exact ⟨l, s₁, hl, [r], s₂, ⟨r, s₂, hr, [], s₂, ⟨rfl, rfl⟩, rfl, rfl⟩, rfl, rfl⟩

/-- The code of the negation of an integer runs like a difference from zero. -/
theorem neg_int {operand : Expr Frame} (hint : operand.kind s.env = some .int)
    (h : neg ⟨operand, operand.emit⟩ s = .ok code s') :
    ∃ r, all (Expr.operands [.int 0, operand]) s = .ok [.int 0, r] s' ∧
      ∀ c store stack, code.exec c store stack
        = (Code.one (.int .sub) [.int 0, r]).exec c store stack := by
  obtain ⟨r, hr, hcode⟩ : ∃ r, operand.emit none s = .ok r s' ∧ ∀ c store stack,
      code.exec c store stack = (Code.one (.int .sub) [.int 0, r]).exec c store stack := by
    -- a literal is negated when it is compiled, which leaves the same number
    by_cases hlit : ∃ value, operand.node = .intLit value
    · obtain ⟨value, hvalue⟩ := hlit
      obtain ⟨node, ty, span⟩ := operand
      cases hvalue
      obtain ⟨rfl, rfl⟩ := pure_eq_ok.1 h
      refine ⟨.int value, rfl, fun c store stack => ?_⟩
      rw [Code.exec_of_computes (IntOp.computes (f := (· - ·)) (fun _ _ => rfl) c) (Code.exec_int 0)
        (Code.exec_int value), Code.exec_int, Int32.zero_sub]
    · rw [not_exists] at hlit
      -- a literal decimal number is no integer
      have hfloat : ∀ value, operand.node ≠ .floatLit value := by
        intro value hvalue
        obtain ⟨node, ty, span⟩ := operand
        cases hvalue
        cases hint
      rw [neg_of_not_literal hlit hfloat] at h
      simp only [bind_eq_ok, Operand.kind_eq_ok] at h
      obtain ⟨_, _, ⟨rfl, rfl⟩, h⟩ := h
      rw [if_neg (by rw [hint]; decide), bind_eq_ok] at h
      obtain ⟨r, s₁, hr, h⟩ := h
      obtain ⟨rfl, rfl⟩ := pure_eq_ok.1 h
      exact ⟨r, hr, fun _ _ _ => rfl⟩
  refine ⟨r, ?_, hcode⟩
  simp only [Expr.operands, all, bind_eq_ok, pure_eq_ok]
  exact ⟨.int 0, s, rfl, [r], s', ⟨r, s', hr, [], s', ⟨rfl, rfl⟩, rfl, rfl⟩, rfl, rfl⟩

/-- The code of a clamp of integers. -/
theorem clamp_int {value low high : Expr Frame}
    (hint : Kind.allInt [value.kind s.env, low.kind s.env, high.kind s.env])
    (h : clamp ⟨value, value.emit⟩ ⟨low, low.emit⟩ ⟨high, high.emit⟩ s = .ok code s') :
    ∃ v h l, all (Expr.operands [value, high, low]) ((s.require .max).require .min)
        = .ok [v, h, l] s' ∧
      code = .one (.call Snippet.max.name) [.one (.call Snippet.min.name) [v, h], l] := by
  simp only [clamp, bind_eq_ok, Operand.allInt_eq_ok] at h
  obtain ⟨answer, _, ⟨rfl, rfl⟩, h⟩ := h
  rw [if_pos (by simpa [Kind.allInt] using hint)] at h
  simp only [bind_eq_ok, modify_eq_ok] at h
  obtain ⟨_, _, rfl, v, s₁, hv, hi, s₂, hh, l, s₃, hl, h⟩ := h
  obtain ⟨rfl, rfl⟩ := pure_eq_ok.1 h
  refine ⟨v, hi, l, ?_, rfl⟩
  simp only [Expr.operands, all, bind_eq_ok, pure_eq_ok]
  exact ⟨v, s₁, hv, [hi, l], s₃,
    ⟨hi, s₂, hh, [l], s₃, ⟨l, s₃, hl, [], s₃, ⟨rfl, rfl⟩, rfl, rfl⟩, rfl, rfl⟩, rfl, rfl⟩

end Emit

/-- The code of an operation on integers: the operands are compiled in order, and the code runs like
a chain of instructions that compute what the operators do. -/
theorem Expr.emit_operation {e first : Expr Frame} {rest : List (Application (Expr Frame))}
    {name : Option String} {s s' : State} {code : Code} (he : e.operation? = some (first, rest))
    (hemit : e.emit name s = .ok code s')
    (hint : ∀ operand ∈ first :: rest.map Application.operand, operand.kind s.env = some .int)
    {m : Module} (hm : s'.includes ⊆ m.snippets) :
    ∃ t c₀ codes ops, t.env = s.env ∧
      Emit.all (Expr.operands (first :: rest.map Application.operand)) t = .ok (c₀ :: codes) s' ∧
      (∀ floats bound depth, List.Forall₂ (Op.Computes (m.context floats bound (depth + 1))) ops
        (rest.map Application.eval)) ∧
      ∀ c store stack, code.exec c store stack
        = (Code.chain c₀ (ops.zip codes)).exec c store stack := by
  obtain ⟨node, ty, span⟩ := e
  cases node with
  | neg operand =>
    cases he
    obtain ⟨r, hall, hcode⟩ := Emit.neg_int (hint operand (by simp)) hemit
    refine ⟨s, .int 0, [r], [.int .sub], rfl, hall, fun floats bound depth => ?_, hcode⟩
    exact .cons (IntOp.computes (fun _ _ => rfl) _) .nil
  | binary op left right =>
    cases he
    simp only [Expr.emit] at hemit
    cases hops : Emit.binaryInstructions? op with
    | none => simp [hops] at hemit
    | some ops =>
      simp only [hops] at hemit
      obtain ⟨l, r, hall, rfl⟩ := Emit.pair_int (by simpa [Kind.allInt] using hint) hemit
      refine ⟨s, l, [r], [.int ops.int], rfl, hall, fun floats bound depth => ?_, fun _ _ _ => rfl⟩
      exact .cons (IntOp.computes (apply_of_binaryInstructions hops) _) .nil
  | compare op left right =>
    cases he
    simp only [Expr.emit] at hemit
    obtain ⟨l, r, hall, rfl⟩ := Emit.pair_int (by simpa [Kind.allInt] using hint) hemit
    refine ⟨s, l, [r], [.int (Emit.compareInstructions op).int], rfl, hall,
      fun floats bound depth => ?_, fun _ _ _ => rfl⟩
    exact .cons (IntOp.computes (apply_compareInstructions op) _) .nil
  | clamp value range =>
    obtain ⟨rangeNode, rangeTy, rangeSpan⟩ := range
    cases rangeNode with
    | range start stop =>
      cases start with
      | none => cases he
      | some low =>
        cases stop with
        | none => cases he
        | some high =>
          cases he
          obtain ⟨v, h, l, hall, rfl⟩ :=
            Emit.clamp_int (by simp_all [Kind.allInt]) hemit
          -- what was asked for before the operands are compiled is still there at the end
          have hincludes : ∀ snippet ∈ ((s.require .max).require .min).includes,
              snippet ∈ m.snippets := by
            have hemits := Emit.emits_of_all (Expr.traced_operands _) hall
            exact fun snippet hmem => hm (hemits.grows.includes hmem)
          refine ⟨(s.require .max).require .min, v, [h, l],
            [.call Snippet.min.name, .call Snippet.max.name], by simp, hall,
            fun floats bound depth => ?_, fun _ _ _ => rfl⟩
          refine .cons (m.computes_min floats bound depth (hincludes _ ?_))
            (.cons (m.computes_max floats bound depth (hincludes _ ?_)) .nil)
          · simp [State.mem_includes_require]
          · simp [State.mem_includes_require]
    | _ => cases he
  | _ => cases he

/-- Operands that are compiled give as many codes. -/
theorem Emit.length_all {operands : List Operand} {s s' : State} {codes : List Code}
    (h : all operands s = .ok codes s') : codes.length = operands.length := by
  induction operands generalizing s codes with
  | nil =>
    obtain ⟨rfl, rfl⟩ := pure_eq_ok.1 h
    rfl
  | cons o rest ih =>
    simp only [all, bind_eq_ok] at h
    obtain ⟨code, s₁, _, codes, s₂, hrest, h⟩ := h
    obtain ⟨rfl, rfl⟩ := pure_eq_ok.1 h
    rw [List.length_cons, List.length_cons, ih hrest]

/-- The operators of an operation, with the codes of their operands. -/
def Application.withCodes (steps : List (Application (Expr Frame))) (codes : List Code) :
    List (Application Code) :=
  List.zipWith (fun step code => ⟨step.eval, code⟩) steps codes

namespace Application

variable {steps : List (Application (Expr Frame))} {codes : List Code}

/-- Steps that are paired with codes have the codes for operands. -/
theorem map_operand_withCodes (h : codes.length = steps.length) :
    (withCodes steps codes).map operand = codes := by
  induction steps generalizing codes with
  | nil => exact (List.length_eq_zero_iff.1 h).symm
  | cons step steps ih =>
    cases codes with
    | nil => cases h
    | cons code codes => exact congrArg (code :: ·) (ih (Nat.succ.inj h))

/-- Steps that are paired with codes compute what they did. -/
theorem map_eval_withCodes (h : codes.length = steps.length) :
    (withCodes steps codes).map eval = steps.map eval := by
  induction steps generalizing codes with
  | nil => rfl
  | cons step steps ih =>
    cases codes with
    | nil => cases h
    | cons code codes => exact congrArg (step.eval :: ·) (ih (Nat.succ.inj h))

end Application

/-- What an operation on integers leaves. Its operands are compiled in order. When they run and leave
values, the code of the operation leaves what its operators make of the values on top of the stack.
If every operand after the first one leaves a single value, the operators work on the values of
their own operands; but if the last one leaves several, the last operator works on the two uppermost
ones of those and no other operand counts. -/
theorem Expr.operation_leaves {e first : Expr Frame} {rest : List (Application (Expr Frame))}
    {name : Option String} {s s' : State} {code : Code} (he : e.operation? = some (first, rest))
    (hemit : e.emit name s = .ok code s')
    (hint : ∀ operand ∈ first :: rest.map Application.operand, operand.kind s.env = some .int)
    {m : Module} (hm : s'.includes ⊆ m.snippets) :
    ∃ t c₀ codes, t.env = s.env ∧
      Emit.all (Expr.operands (first :: rest.map Application.operand)) t = .ok (c₀ :: codes) s' ∧
      ∀ floats bound depth store stack middle values left after result,
        c₀.Leaves (m.context floats bound (depth + 1)) store stack middle values →
        Consumes (m.context floats bound (depth + 1)) stack middle values
          (Application.withCodes rest codes) left after result →
        code.Leaves (m.context floats bound (depth + 1)) store stack after result ∧
        (∀ a below bs, values = .int a :: below → left = bs.map (fun b => [.int b]) →
          result = .int (applyAll a (rest.map Application.eval) bs) :: below) ∧
        (∀ f x y more, (rest.map Application.eval).getLast? = some f →
          left.getLast? = some (.int y :: .int x :: more) →
          result.head? = some (.int (f x y))) := by
  obtain ⟨t, c₀, codes, ops, henv, hall, hops, hcode⟩ := emit_operation he hemit hint hm
  refine ⟨t, c₀, codes, henv, hall, ?_⟩
  intro floats bound depth store stack middle values left after result hfirst hrest
  have hlength : codes.length = rest.length := by simpa [operands_eq_map] using Emit.length_all hall
  have hops := hops floats bound depth
  -- the operators stay the same when their operands are replaced by codes
  rw [← Application.map_eval_withCodes hlength] at hops ⊢
  refine ⟨?_, fun a below bs hvalues hleft => hrest.isolated hvalues hleft,
    fun f x y more hf hleft => hrest.overlaid hf hleft⟩
  have hchain := Code.leaves_chain hfirst hrest hops
  rw [Application.map_operand_withCodes hlength] at hchain
  exact (hcode _ store stack).trans hchain

/-- `1 + (2; 3)` -/
def Expr.overlaid : Expr Frame :=
  .plain (.binary .add (.int 1) (.plain (.statements [.int 2, .int 3])))

/-- The sum of one and of a list that ends in three: the list hides the one, and the code leaves the
sum of its last two members. -/
theorem Expr.overlaid_leaves_five : ∃ code, overlaid.emit none {} = .ok code {} ∧
    code.Leaves (Module.context ⟨none, [], [], []⟩ default 0 1) default [] default
      [.int 5, .int 1] := by
  refine ⟨_, rfl, ?_⟩
  obtain ⟨t, c₀, codes, _, hall, hleaves⟩ :=
    @operation_leaves overlaid _ _ none {} {} _ rfl rfl
      (by simp [Expr.plain, Expr.kind, Expr.lastKind, Expr.int, Expr.withKind])
      ⟨none, [], [], []⟩ (List.nil_subset _)
  have hall : EStateM.Result.ok [.int 1, Code.join .newline [.int 2, .int 3]] t
    = .ok (c₀ :: codes) {} := hall
  cases hall
  refine (hleaves default 0 0 default [] default [.int 1] [[.int 3, .int 2]] default _ rfl ?_).1
  exact .cons rfl rfl .nil

end PatchCompiler
