import PatchCompiler.Proofs.Emission.Growth
import PatchCompiler.Proofs.Locals.Agreement
import PatchCompiler.Proofs.Semantics.Direct

/-! # Compiled integer programs compute what direct evaluation does

The code of an expression leaves its value on the stack, and the code of a statement leaves the
variables as direct evaluation does. Statements also leave the values of their expressions on the
stack; a loop drops them each time it starts again, and the end of the function drops the rest. Main
statement: running the module of an integer program takes just the bound that direct evaluation
takes, and ends with the same value in every variable. -/

namespace PatchCompiler

open Machine

/-! ## Stores and variables -/

/-- All names stand for integer variables that are no parameters. -/
def Env.IsInteger (env : Env) : Prop :=
  ∀ x v, env x = some v → v.kind = .int ∧ v.storage ≠ .parameter

/-- The value of a variable in a store. -/
def Machine.Store.read (store : Store) (x : String) (v : Variable) : Option Value :=
  if v.isGlobal then store.globals x else store.locals x

/-- A store holds the values of variables. -/
def Agrees (env : Env) (vars : Vars) (store : Store) : Prop :=
  ∀ x v, env x = some v → store.read x v = some (.int (vars x))

/-- Give a variable a value. -/
def Machine.Store.write (store : Store) (x : String) (v : Variable) (value : Value) : Store :=
  if v.isGlobal then store.setGlobal x value else store.setLocal x value

section

variable {env : Env} {vars : Vars} {store : Store} {c : Context} {stack : List Value} {x : String}
  {v : Variable}

/-- Reading a variable leaves its value. -/
theorem Agrees.exec_read (h : Agrees env vars store) (hv : env x = some v) :
    (Emit.read x v).exec c store stack = .next store (.int (vars x) :: stack) := by
  have hread := h x v hv
  unfold Store.read at hread
  unfold Emit.read
  cases hglobal : v.isGlobal with
  | true =>
    rw [hglobal, if_pos rfl] at hread
    simp [Code.exec_one, hread]
  | false =>
    rw [hglobal, if_neg Bool.false_ne_true] at hread
    simp [Code.exec_one, hread]

/-- Writing a variable changes the value of its name and no other one. -/
theorem Agrees.write (h : Agrees env vars store) (hv : env x = some v) (n : Int32) :
    Agrees env (vars.set x n) (store.write x v (.int n)) := by
  intro y w hw
  by_cases hy : y = x
  · subst hy
    cases hv.symm.trans hw
    -- what is written is what is read, in the same place
    cases hglobal : v.isGlobal <;>
      simp [Store.read, Store.write, Store.setGlobal, Store.setLocal, Vars.set, hglobal]
  · -- a global and a local variable of different names do not meet
    have hread : (store.write x v (.int n)).read y w = store.read y w := by
      cases hglobal : v.isGlobal <;>
        simp [Store.read, Store.write, Store.setGlobal, Store.setLocal, hglobal, hy]
    rw [hread, h y w hw, Vars.set, if_neg hy]

/-- The code that writes a variable does so and leaves the new value. -/
theorem Agrees.exec_store {after : Store} {code : Code} {n : Int32} (h : Agrees env vars after)
    (hv : env x = some v) (hinteger : env.IsInteger)
    (hcode : code.exec c store stack = .next after (.int n :: stack)) :
    (Emit.store x v code (some .int)).exec c store stack
      = .next (after.write x v (.int n)) (.int n :: stack) := by
  obtain ⟨hkind, hstorage⟩ := hinteger x v hv
  have hread := h x v hv
  unfold Store.read at hread
  -- a value of an integer needs no conversion
  have hfit : (Coercion.fit v.valType (some .int)).apply code = code := by
    simp [Variable.valType, hstorage, hkind, Kind.valType, Coercion.fit, Coercion.toType,
      Coercion.toInt, Coercion.apply]
  unfold Emit.store Store.write
  rw [hfit]
  cases hglobal : v.isGlobal with
  | true =>
    rw [hglobal, if_pos rfl] at hread
    simp [Code.exec_one, Emit.read, hglobal, hcode, hread, Store.setGlobal]
  | false =>
    rw [hglobal, if_neg Bool.false_ne_true] at hread
    simp [Code.exec_one, hcode, hread]

end

/-! ## Expressions -/

/-- The kind of an integer variable, read back, is that of integers. -/
theorem Env.IsInteger.storedKind {env : Env} (h : env.IsInteger) {x : String} {v : Variable}
    (hv : env x = some v) : v.storedKind = .int := by
  obtain ⟨hkind, hstorage⟩ := h x v hv
  simp [Variable.storedKind, Variable.valType, hkind, hstorage, Kind.valType]

/-- A node annotated with the kind of integers, or not at all, has that kind if it has it without
the annotation. -/
theorem Expr.kind_of_annotated {node : Node Frame} {ty : Option Kind} {span : Span} {env : Env}
    (hty : ty ∈ [none, some .int]) (h : (Expr.mk node none span).kind env = some .int) :
    (Expr.mk node ty span).kind env = some .int := by
  rcases List.mem_cons.1 hty with rfl | hty
  · exact h
  · -- the annotation is ignored by these nodes, and decides for the others
    cases List.mem_singleton.1 hty
    cases node with
    | floatLit => exact h
    | ident => exact h
    | _ => rfl

/-- The code of an expression leaves its value, and the variables after it. -/
structure Evaluates (c : Context) (env : Env) (e : Expr Frame) (code : Code) : Prop where
  /-- The expression has the kind of integers. -/
  kind : e.kind env = some .int
  /-- The code does what evaluation does. -/
  exec : ∀ vars store stack, Agrees env vars store → ∃ after,
    code.exec c store stack = .next after (.int (e.value vars).1 :: stack) ∧
      Agrees env (e.value vars).2 after

section

variable {m : Module} {floats : FloatUnit} {bound depth : Nat} {s s' : State} {code : Code}

/-- However an expression is compiled, its code leaves its value. -/
def Evaluated (m : Module) (c : Context) (e : Expr Frame) : Prop :=
  ∀ s s' name code, s.env.IsInteger → Emits s (.expr e name) [code] s' →
    s'.includes ⊆ m.snippets → Evaluates c s.env e code

/-- An operand that is compiled has the kind of integers. -/
theorem Evaluated.kind_of_operand {c : Context} {e : Expr Frame} {type : ValType}
    (h : Evaluated m c e) (hinteger : s.env.IsInteger)
    (hemits : Emits s (.operand e type) [code] s') (hm : s'.includes ⊆ m.snippets) :
    e.kind s.env = some .int := by
  cases hemits with
  | operand hemits => exact (h _ _ _ _ hinteger hemits hm).kind

/-- An operator on two expressions works on integers. -/
theorem Emits.evaluates_pair {c : Context} {ops : Emit.Instructions} {f : Int32 → Int32 → Int32}
    {left right : Expr Frame} (hops : ∀ a b, ops.int.apply a b = some (f a b))
    (hl : Evaluated m c left) (hr : Evaluated m c right) (hinteger : s.env.IsInteger)
    (h : Emits s (.pair ops left right) [code] s') (hm : s'.includes ⊆ m.snippets) :
    Kind.allInt [left.kind s.env, right.kind s.env] ∧
    ∀ vars store stack, Agrees s.env vars store → ∃ after,
      code.exec c store stack = .next after
        (.int (f (left.value vars).1 (right.value (left.value vars).2).1) :: stack) ∧
      Agrees s.env (right.value (left.value vars).2).2 after := by
  cases h with
  | @pairInt _ s₁ _ _ _ _ l r hall hleft hright =>
    refine ⟨hall, fun vars store stack hagrees => ?_⟩
    have hincludes := List.Subset.trans hright.grows.includes hm
    obtain ⟨store₁, hexec₁, hagrees₁⟩ :=
      (hl _ _ _ _ hinteger hleft hincludes).exec vars store stack hagrees
    have hevaluates := hr _ _ _ _ (hleft.env_eq ▸ hinteger) hright hm
    rw [hleft.env_eq] at hevaluates
    obtain ⟨store₂, hexec₂, hagrees₂⟩ := hevaluates.exec _ store₁ _ hagrees₁
    exact ⟨store₂, Code.exec_of_computes (IntOp.computes hops c) hexec₁ hexec₂, hagrees₂⟩
  | @pairFloat _ s₁ _ _ _ _ l r hne hleft hright =>
    -- both operands have the kind of integers, so that this case does not arise
    have hincludes := List.Subset.trans hright.grows.includes hm
    have hkind := hl.kind_of_operand hinteger hleft hincludes
    have hkind' := hr.kind_of_operand (hleft.env_eq ▸ hinteger) hright hm
    rw [hleft.env_eq] at hkind'
    exact absurd (by simp [Kind.allInt, hkind, hkind']) hne

/-- The code of an integer literal. -/
theorem evaluated_int (m : Module) (c : Context) (v : Int32) (ty : Option Kind) (span : Span) :
    Evaluated m c (.mk (.intLit v) ty span) := by
  intro s s' name code _ hemits _
  cases hemits
  exact ⟨rfl, fun vars store stack hagrees => ⟨store, Code.exec_int v, hagrees⟩⟩

/-- The code of a variable. -/
theorem evaluated_ident (m : Module) (c : Context) (x : String) (ty : Option Kind) (span : Span) :
    Evaluated m c (.mk (.ident x) ty span) := by
  intro s s' name code hinteger hemits _
  cases hemits with
  | @ident _ _ v _ _ _ hv =>
    have hv : s.env x = some v := hv
    obtain ⟨hkind, _⟩ := hinteger x v hv
    refine ⟨by simp [Expr.kind, hv, hinteger.storedKind hv], fun vars store stack hagrees => ?_⟩
    rw [if_neg (by rw [hkind]; decide)]
    exact ⟨store, hagrees.exec_read hv, hagrees⟩

/-- A clamp works on integers. -/
theorem Emits.evaluates_clamp {value low high : Expr Frame} {rangeTy ty : Option Kind}
    {rangeSpan span : Span} {name : Option String}
    (hv : Evaluated m (m.context floats bound (depth + 1)) value)
    (hl : Evaluated m (m.context floats bound (depth + 1)) low)
    (hh : Evaluated m (m.context floats bound (depth + 1)) high) (hinteger : s.env.IsInteger)
    (h : Emits s (.expr (.mk (.clamp value
      (.mk (.range (some low) (some high)) rangeTy rangeSpan)) ty span) name) [code] s')
    (hm : s'.includes ⊆ m.snippets) :
    Kind.allInt [value.kind s.env, low.kind s.env, high.kind s.env] ∧
    ∀ vars store stack, Agrees s.env vars store → ∃ after,
      code.exec (m.context floats bound (depth + 1)) store stack
        = .next after (.int ((Expr.mk (.clamp value
          (.mk (.range (some low) (some high)) rangeTy rangeSpan)) ty span).value vars).1 :: stack) ∧
      Agrees s.env ((Expr.mk (.clamp value
          (.mk (.range (some low) (some high)) rangeTy rangeSpan)) ty span).value vars).2 after := by
  cases h with
  | @clampInt _ s₁ s₂ _ _ _ _ v h l _ _ _ _ _ hall hvalue hhigh hlow =>
    -- what the clamp asks for is still asked for at the end
    have hm₂ := List.Subset.trans hlow.grows.includes hm
    have hm₁ := List.Subset.trans hhigh.grows.includes hm₂
    have henv : ((s.require .max).require .min).env = s.env := by simp
    have henv₁ := hvalue.env_eq.trans henv
    have henv₂ := hhigh.env_eq.trans henv₁
    have hincludes : ∀ snippet ∈ ((s.require .max).require .min).includes,
        snippet ∈ m.snippets := fun snippet hmem => hm₁ (hvalue.grows.includes hmem)
    have hmin := m.computes_min floats bound depth
      (hincludes _ (by simp [State.mem_includes_require]))
    have hmax := m.computes_max floats bound depth
      (hincludes _ (by simp [State.mem_includes_require]))
    have hv := hv _ _ _ _ (henv ▸ hinteger) hvalue hm₁
    have hh := hh _ _ _ _ (henv₁ ▸ hinteger) hhigh hm₂
    have hl := hl _ _ _ _ (henv₂ ▸ hinteger) hlow hm
    rw [henv] at hv
    rw [henv₁] at hh
    rw [henv₂] at hl
    refine ⟨hall, fun vars store stack hagrees => ?_⟩
    obtain ⟨store₁, hexec₁, hagrees₁⟩ := hv.exec vars store stack hagrees
    obtain ⟨store₂, hexec₂, hagrees₂⟩ := hh.exec _ store₁ _ hagrees₁
    obtain ⟨store₃, hexec₃, hagrees₃⟩ := hl.exec _ store₂ _ hagrees₂
    exact ⟨store₃,
      Code.exec_of_computes hmax (Code.exec_of_computes hmin hexec₁ hexec₂) hexec₃, hagrees₃⟩
  | @clampFloat _ s₁ s₂ _ _ _ _ v h l _ _ _ _ _ hne hvalue hhigh hlow =>
    have hm₂ := List.Subset.trans hlow.grows.includes hm
    have hm₁ := List.Subset.trans hhigh.grows.includes hm₂
    have henv₂ := hhigh.env_eq.trans hvalue.env_eq
    -- each operand has the kind of integers, so that this case does not arise either
    have hkind := hv.kind_of_operand hinteger hvalue hm₁
    have hkind₁ := hh.kind_of_operand (hvalue.env_eq ▸ hinteger) hhigh hm₂
    have hkind₂ := hl.kind_of_operand (henv₂ ▸ hinteger) hlow hm
    rw [hvalue.env_eq] at hkind₁
    rw [henv₂] at hkind₂
    exact absurd (by simp [Kind.allInt, hkind, hkind₁, hkind₂]) hne

/-- The code of a compound assignment. -/
theorem Emits.evaluates_compound {c : Context} {op : CompoundOp} {x : String} {v : Variable}
    {target value : Expr Frame} {e : Expr Frame} (htarget : target.node = .ident x)
    (hvalue : Evaluated m c value) (hinteger : s.env.IsInteger) (hv : s.lookup x = some v)
    (h : Emits s (.pair (Emit.compoundInstructions op) target value) [code] s')
    (hm : s'.includes ⊆ m.snippets)
    (heval : ∀ vars, e.value vars = (op.binary.eval (vars x) (value.value vars).1,
      (value.value vars).2.set x (op.binary.eval (vars x) (value.value vars).1)))
    (hkind : e.kind s.env = some .int) :
    Evaluates c s.env e
      (Emit.store x v code (some (.arithmetic [v.storedKind, value.kind s.env]))) := by
  obtain ⟨_, targetTy, targetSpan⟩ := target
  cases htarget
  have hv : s.env x = some v := hv
  obtain ⟨hall, hexec⟩ := h.evaluates_pair (apply_compoundInstructions op)
    (evaluated_ident m c x targetTy targetSpan) hvalue hinteger hm
  -- the kind of the result is that of two integers
  have hall : Kind.allInt [some v.storedKind, value.kind s.env] := by
    simpa [Expr.kind, hv] using hall
  refine ⟨hkind, fun vars store stack hagrees => ?_⟩
  obtain ⟨after, hcode, hafter⟩ := hexec vars store stack hagrees
  rw [Kind.arithmetic_of_allInt hall, heval]
  exact ⟨_, hafter.exec_store hv hinteger hcode, hafter.write hv _⟩

/-- The code of an expression of an integer program leaves its value. -/
theorem Expr.Scalar.evaluated {e : Expr Frame} (h : e.Scalar) (m : Module) (floats : FloatUnit)
    (bound depth : Nat) : Evaluated m (m.context floats bound (depth + 1)) e := by
  induction h with
  | intLit => exact evaluated_int _ _ _ _ _
  | ident => exact evaluated_ident _ _ _ _ _
  | neg hty h ih =>
    intro s s' name code hinteger hemits hm
    cases hemits with
    | negInt =>
      exact ⟨kind_of_annotated hty rfl,
        fun vars store stack hagrees => ⟨store, Code.exec_int _, hagrees⟩⟩
    | negFloat => cases h
    | opposite _ _ hfloat hoperand =>
      have hkind := (ih _ _ _ _ hinteger hoperand hm).kind
      exact absurd (hkind.symm.trans hfloat) (by decide)
    | difference _ _ _ hoperand =>
      have hevaluates := ih _ _ _ _ hinteger hoperand hm
      refine ⟨kind_of_annotated hty hevaluates.kind, fun vars store stack hagrees => ?_⟩
      obtain ⟨after, hexec, hafter⟩ := hevaluates.exec vars store (.int 0 :: stack) hagrees
      refine ⟨after, ?_, hafter⟩
      rw [Code.exec_of_computes (IntOp.computes (f := (· - ·)) (fun _ _ => rfl) _)
        (Code.exec_int 0) hexec, Int32.zero_sub]
      rfl
  | @binary op left right ty span hty hop _ _ ihl ihr =>
    intro s s' name code hinteger hemits hm
    cases hemits with
    | binary hops hpair =>
      obtain ⟨hall, hexec⟩ :=
        hpair.evaluates_pair (apply_of_binaryInstructions hops) ihl ihr hinteger hm
      refine ⟨kind_of_annotated hty ?_, hexec⟩
      cases op with
      | bitOr => exact absurd rfl hop
      | _ => exact congrArg some (Kind.arithmetic_of_allInt hall)
  | compare hty _ _ ihl ihr =>
    intro s s' name code hinteger hemits hm
    cases hemits with
    | compare hpair =>
      obtain ⟨_, hexec⟩ :=
        hpair.evaluates_pair (apply_compareInstructions _) ihl ihr hinteger hm
      exact ⟨kind_of_annotated hty rfl, hexec⟩
  | clamp hty _ _ _ ihv ihl ihh =>
    intro s s' name code hinteger hemits hm
    obtain ⟨hall, hexec⟩ := hemits.evaluates_clamp ihv ihl ihh hinteger hm
    exact ⟨kind_of_annotated hty (congrArg some (Kind.arithmetic_of_allInt hall)), hexec⟩
  | @assign x targetTy targetSpan value ty span hty hvalue ih =>
    intro s s' name code hinteger hemits hm
    cases hemits with
    -- an integer expression is no function, and a name is no element
    | assignFunction hfunction _ => cases hvalue <;> cases hfunction
    | assignPart hposition => cases hposition
    | @assignName _ _ _ v _ _ _ kind code _ _ _ hfunction hv _ hkind _ hcode =>
      have hv : s.env x = some v := hv
      have hevaluates := ih _ _ _ _ hinteger hcode hm
      cases hevaluates.kind.symm.trans hkind
      refine ⟨kind_of_annotated hty ?_, fun vars store stack hagrees => ?_⟩
      · simp [Expr.kind, hfunction, Expr.targetKind, hv, hinteger.storedKind hv]
      · obtain ⟨after, hexec, hafter⟩ := hevaluates.exec vars store stack hagrees
        exact ⟨_, hafter.exec_store hv hinteger hexec, hafter.write hv _⟩
  | @compound op x targetTy targetSpan value ty span hty _ ih =>
    intro s s' name code hinteger hemits hm
    cases hemits with
    | compound hv _ hpair =>
      refine hpair.evaluates_compound rfl ih hinteger hv hm (fun _ => rfl)
        (kind_of_annotated hty ?_)
      have hv : s.env x = some _ := hv
      simp [Expr.kind, Expr.targetKind, hv, hinteger.storedKind hv]
  | @step op x targetTy targetSpan ty span hty =>
    intro s s' name code hinteger hemits hm
    cases hemits with
    | @step _ _ _ _ v _ _ _ _ _ _ hv _ hpair =>
      have hkind : (Expr.mk (.step op (.mk (.ident x) targetTy targetSpan)) ty span).kind s.env
          = some .int := by
        have hv : s.env x = some v := hv
        refine kind_of_annotated hty ?_
        simp [Expr.kind, Expr.targetKind, hv, hinteger.storedKind hv]
      -- the value of a step is the literal one, which the rule does not name
      have hone := evaluated_int m (m.context floats bound (depth + 1)) 1 (some .int) .synthetic
      have hevaluates := hpair.evaluates_compound rfl hone hinteger hv hm
        (fun _ => rfl) hkind
      exact hevaluates

end

/-! ## Statements -/

/-- Code ends with the variables that direct evaluation gives, or runs out of the bound as it does.
Values may be left on the stack. -/
def Follows (env : Env) (stack : List Value) (result : Option Vars) (outcome : Outcome) : Prop :=
  match result with
  | none => outcome = .timeout
  | some vars => ∃ after left, outcome = .next after (left ++ stack) ∧ Agrees env vars after

/-- One statement after another. -/
theorem Follows.bind {env : Env} {stack : List Value} {result : Option Vars} {outcome : Outcome}
    {f : Vars → Option Vars} {k : Store → List Value → Outcome} (h : Follows env stack result outcome)
    (hk : ∀ vars after left, Agrees env vars after →
      Follows env (left ++ stack) (f vars) (k after (left ++ stack))) :
    Follows env stack (result.bind f) (outcome.bind k) := by
  cases result with
  | none =>
    obtain rfl : outcome = .timeout := h
    rfl
  | some vars =>
    obtain ⟨after, left, rfl, hagrees⟩ := h
    have hrest := hk vars after left hagrees
    simp only [Option.bind_some, Outcome.next_bind]
    -- what both parts leave on the stack adds up
    cases hresult : f vars with
    | none =>
      rw [hresult] at hrest
      exact hrest
    | some vars' =>
      rw [hresult] at hrest
      obtain ⟨last, left', houtcome, hagrees'⟩ := hrest
      exact ⟨last, left' ++ left, by rw [houtcome, List.append_assoc], hagrees'⟩

section

variable {m : Module} {floats : FloatUnit} {bound depth : Nat}

/-- However a statement is compiled, its code ends as direct evaluation does. -/
def Followed (m : Module) (c : Context) (e : Expr Frame) : Prop :=
  ∀ s s' name code, s.env.IsInteger → Emits s (.expr e name) [code] s' → s'.includes ⊆ m.snippets →
    ∀ vars store stack, Agrees s.env vars store →
      Follows s.env stack (e.run c.bound vars) (code.exec c store stack)

/-- The codes of statements one after another. -/
theorem Emits.follows_list {c : Context} {items : List (Expr Frame)} {codes : List Code} {gap : Gap}
    {s s' : State} (hitems : ∀ e ∈ items, Followed m c e) (hinteger : s.env.IsInteger)
    (h : Emits s (.list items) codes s') (hm : s'.includes ⊆ m.snippets) :
    ∀ vars store stack, Agrees s.env vars store →
      Follows s.env stack (Expr.runList c.bound items vars)
        ((Code.join gap codes).exec c store stack) := by
  induction items generalizing s codes with
  | nil =>
    cases h
    exact fun vars store stack hagrees => ⟨store, [], rfl, hagrees⟩
  | cons e rest ih =>
    cases h with
    | @listCons _ s₁ _ _ _ code codes he hrest =>
      intro vars store stack hagrees
      have hm₁ := List.Subset.trans hrest.grows.includes hm
      have hfirst := hitems e List.mem_cons_self _ _ _ _ hinteger he hm₁ vars store stack hagrees
      rw [Code.exec_join_cons, Expr.runList]
      refine hfirst.bind fun vars after left hafter => ?_
      have hsecond := ih (fun e' he' => hitems e' (List.mem_cons_of_mem _ he'))
        (he.env_eq ▸ hinteger) hrest vars after (left ++ stack) (he.env_eq ▸ hafter)
      rw [he.env_eq] at hsecond
      exact hsecond

/-- One run of the body of a loop's code: it ends the loop if the test gives zero, and otherwise
starts it again after the content. -/
def loopStep (c : Context) (label : Label) (test content : Code) (store : Store) : Outcome :=
  (test.exec c store []).bind fun store stack =>
    match stack with
    | .int v :: stack =>
      if v = 0 then .next store stack
      else (content.exec c store []).bind fun store _ => .branch label store
    | _ => .trap

/-- The code of a loop iterates that. -/
theorem exec_loopOf (c : Context) (label : Label) (test content : Code) (store : Store)
    (stack : List Value) :
    (Emit.loopOf label test content).exec c store stack
      = (iterate label (loopStep c label test content) c.bound store).above stack := by
  rw [Emit.loopOf, Code.exec_loop]
  congr 2
  funext store
  rw [Code.execOperands_cons, Code.exec_conditional, Outcome.bind_assoc]
  unfold loopStep
  congr 1
  funext store stack
  cases stack with
  | nil => rfl
  | cons value rest =>
    cases value with
    | float v => rfl
    | int v =>
      -- the jump back drops whatever the content has left
      simp only
      split
      · rfl
      · rw [Code.exec_append]
        cases content.exec c store [] <;> rfl

/-- The code of a loop runs as often as direct evaluation repeats the body. -/
theorem follows_iterate {c : Context} {env : Env} {label : Label} {test content : Code}
    {cond : Vars → Int32 × Vars} {body : Vars → Option Vars}
    (htest : ∀ vars store, Agrees env vars store → ∃ after,
      test.exec c store [] = .next after [.int (cond vars).1] ∧ Agrees env (cond vars).2 after)
    (hbody : ∀ vars store, Agrees env vars store →
      Follows env [] (body vars) (content.exec c store []))
    (n : Nat) : ∀ vars store, Agrees env vars store →
      Follows env [] (repeatWhile cond body n vars)
        (iterate label (loopStep c label test content) n store) := by
  induction n with
  | zero => exact fun vars store _ => rfl
  | succ n ih =>
    intro vars store hagrees
    obtain ⟨store₁, hexec, hagrees₁⟩ := htest vars store hagrees
    unfold repeatWhile iterate loopStep
    rw [hexec, Outcome.next_bind]
    by_cases hzero : (cond vars).1 = 0
    · -- the test gives zero: both end here
      simp only [hzero, if_true]
      exact ⟨store₁, [], rfl, hagrees₁⟩
    · simp only [hzero, if_false]
      -- another round, with one fewer left
      have hcontent := hbody (cond vars).2 store₁ hagrees₁
      cases hresult : body (cond vars).2 with
      | none =>
        rw [hresult] at hcontent
        have htimeout : content.exec c store₁ [] = .timeout := hcontent
        rw [htimeout]
        rfl
      | some vars' =>
        rw [hresult] at hcontent
        obtain ⟨after, left, hnext, hagrees'⟩ := hcontent
        rw [hnext, Outcome.next_bind]
        simp only [if_true]
        exact ih vars' after hagrees'

/-- A block of its own leaves its values on the stack around it. -/
theorem Follows.above {env : Env} {result : Option Vars} {outcome : Outcome}
    (h : Follows env [] result outcome) (stack : List Value) :
    Follows env stack result (outcome.above stack) := by
  cases result with
  | none =>
    obtain rfl : outcome = .timeout := h
    rfl
  | some vars =>
    obtain ⟨after, left, rfl, hagrees⟩ := h
    exact ⟨after, left, by simp, hagrees⟩

/-- The code of a statement ends as direct evaluation does. -/
theorem Expr.Statement.followed {e : Expr Frame} (h : e.Statement) (m : Module)
    (floats : FloatUnit) (bound depth : Nat) :
    Followed m (m.context floats bound (depth + 1)) e := by
  induction h with
  | statements _ ih =>
    intro s s' name code hinteger hemits hm
    cases hemits with
    | statements hlist => exact hlist.follows_list ih hinteger hm
  | sequence _ ih =>
    intro s s' name code hinteger hemits hm
    cases hemits with
    | sequence hlist => exact hlist.follows_list ih hinteger hm
  | @loop cond body ty span hcond _ ih =>
    intro s s' name code hinteger hemits hm vars store stack hagrees
    cases hemits with
    | @loop _ s₁ s₂ _ _ test content _ _ _ htest hcontent =>
      -- the state inside the loop sees the same names
      have henv : s.enterLoop.env = s.env := rfl
      have henv₁ := htest.env_eq.trans henv
      have hm₁ := List.Subset.trans hcontent.grows.includes hm
      have htest := hcond.evaluated m floats bound depth s.enterLoop _ _ _ hinteger htest hm₁
      rw [henv] at htest
      have hcontent := ih _ _ _ _ (henv₁ ▸ hinteger) hcontent hm
      rw [henv₁] at hcontent
      have hkind : Emit.testOf (cond.kind s₁.env) test = test := by
        rw [henv₁, Emit.testOf, htest.kind]
        rfl
      rw [hkind, exec_loopOf]
      refine Follows.above ?_ stack
      refine follows_iterate (fun vars store hagrees => ?_) (fun vars store hagrees => ?_) _ _ _
        hagrees
      · exact htest.exec vars store [] hagrees
      · exact hcontent vars store [] hagrees
  | scalar h =>
    intro s s' name code hinteger hemits hm vars store stack hagrees
    obtain ⟨after, hexec, hafter⟩ :=
      (h.evaluated m floats bound depth _ _ _ _ hinteger hemits hm).exec vars store stack hagrees
    rw [h.run_eq, hexec]
    exact ⟨after, [_], rfl, hafter⟩

end

/-! ## Programs -/

/-- Integer programs: statements on integer variables of the outermost scope. -/
structure Program.IsInteger (p : Program) : Prop where
  /-- The body is a statement. -/
  body : p.body.Statement
  /-- No name is bound twice. -/
  names : p.scope.names.Nodup
  /-- All variables are integers, global or local. -/
  integers : ∀ b ∈ p.scope.bindings, b.info.kind = .int ∧ b.info.storage ≠ .parameter

/-- An expression that opens no scope and defines no function. -/
structure Expr.Flat (env : Env) (e : Expr Frame) : Prop where
  /-- It opens no scope. -/
  scopes : e.scopes = []
  /-- It adds no variable. -/
  variables_eq : e.variables = []
  /-- It defines no function. -/
  outlines : e.outlines env false none = []

namespace Expr

variable {env : Env} {e : Expr Frame}

/-- A number is no function. -/
theorem Scalar.isFunction_eq (h : e.Scalar) : e.isFunction = false := by
  cases h <;> rfl

/-- Expressions of integer programs are flat. -/
theorem Scalar.flat (h : e.Scalar) (env : Env) : e.Flat env := by
  induction h with
  | intLit | ident | step => exact ⟨rfl, rfl, rfl⟩
  | neg _ _ ih => exact ⟨ih.scopes, ih.variables_eq, ih.outlines⟩
  | binary _ _ _ _ ihl ihr =>
    constructor
    · simp [Expr.scopes, Node.scopes, ihl.scopes, ihr.scopes]
    · simp [Expr.variables, ihl.variables_eq, ihr.variables_eq]
    · simp [Expr.outlines, ihl.outlines, ihr.outlines]
  | compare _ _ _ ihl ihr =>
    constructor
    · simp [Expr.scopes, Node.scopes, ihl.scopes, ihr.scopes]
    · simp [Expr.variables, ihl.variables_eq, ihr.variables_eq]
    · simp [Expr.outlines, ihl.outlines, ihr.outlines]
  | clamp _ _ _ _ ihv ihl ihh =>
    constructor
    · simp [Expr.scopes, Node.scopes, Expr.scopesOption, ihv.scopes, ihl.scopes, ihh.scopes]
    · simp [Expr.variables, ihv.variables_eq, ihl.variables_eq, ihh.variables_eq]
    · simp [Expr.outlines, ihv.outlines, ihl.outlines, ihh.outlines]
  | assign _ h ih =>
    constructor
    · simp [Expr.scopes, Node.scopes, ih.scopes]
    · simp [Expr.variables, ih.variables_eq]
    · simp [Expr.outlines, h.isFunction_eq, ih.outlines]
  | compound _ _ ih =>
    constructor
    · simp [Expr.scopes, Node.scopes, ih.scopes]
    · simp [Expr.variables, ih.variables_eq]
    · simp [Expr.outlines, ih.outlines]

/-- Statements are flat. -/
theorem Statement.flat (h : e.Statement) (env : Env) : e.Flat env := by
  induction h with
  | statements _ ih | sequence _ ih =>
    constructor
    · simpa [Expr.scopes, Node.scopes, scopesList_eq_flatMap] using fun e he => (ih e he).scopes
    · simpa [Expr.variables, variablesList_eq_flatMap] using fun e he => (ih e he).variables_eq
    · simpa [Expr.outlines, outlinesList_eq_flatMap] using fun e he => (ih e he).outlines
  | loop hcond _ ih =>
    have hcond := hcond.flat env
    constructor
    · simp [Expr.scopes, Node.scopes, hcond.scopes, ih.scopes]
    · simp [Expr.variables, hcond.variables_eq, ih.variables_eq]
    · simp [Expr.outlines, hcond.outlines, ih.outlines]
  | scalar h => exact h.flat env

end Expr

namespace Program

/-- Names stand for bindings of the program's scope. -/
theorem exists_of_env {p : Program} {x : String} {v : Variable} (h : p.env x = some v) :
    ∃ b ∈ p.scope.bindings, b.name = x ∧ b.info = v := by
  unfold env Env.enter Frame.find? Scope.find? at h
  cases hfind : p.scope.bindings.find? (·.name = x) with
  | none => simp [hfind] at h
  | some b =>
    refine ⟨b, List.mem_of_find?_eq_some hfind, by simpa using List.find?_some hfind, ?_⟩
    simpa [hfind] using h

variable {p : Program} {m : Module} {map : SourceMap}

/-- In an integer program all names stand for integers. -/
theorem IsInteger.isInteger_env (hp : p.IsInteger) : p.env.IsInteger := by
  intro x v hv
  obtain ⟨b, hb, _, rfl⟩ := exists_of_env hv
  exact hp.integers b hb

/-- An integer program has one scope, which binds no parameter. -/
theorem IsInteger.scopes_eq (hp : p.IsInteger) : p.scopes = [([], p.scope)] := by
  rw [Program.scopes, ← Expr.map_scope_scopes_locate [0] p.body,
    ((hp.body.locate [0]).flat p.env).scopes, List.map_nil]

/-- In an integer program all names are resolved. -/
theorem IsInteger.wellScoped (hp : p.IsInteger) : p.WellScoped := by
  constructor
  · rw [hp.scopes_eq]
    simpa using hp.names
  · rw [hp.scopes_eq]
    simp

/-- The module of an integer program has one function, which declares the variables that are not
those of the module. -/
theorem IsInteger.module_eq (hp : p.IsInteger) (h : p.compile.outcome = .ok (m, map)) :
    ∃ s code, Emits p.initial (.expr (p.body.locate [0]) none) [code] s ∧
      m.snippets = s.includes ∧ m.funcs = [.init p.scope.variables code] ∧
      m.globals = p.scope.globals := by
  have hflat := (hp.body.locate [0]).flat p.env
  have hsummary := summary_funcs h hp.wellScoped.bindsParams
  have hglobals := globals_eq h hp.wellScoped.bindsParams
  rw [hp.scopes_eq, List.flatMap_singleton] at hglobals
  rw [show p.outlines = [.ofFunction (fun _ => none) false initName [] none ⟨[], p.scope⟩ none
    (p.body.locate [0])] from congrArg (· ++ _) hflat.outlines] at hsummary
  obtain ⟨s, code, hemits, _, hsnippets, hforms⟩ := start_of_compile h
  refine ⟨s, code, hemits, hsnippets, ?_, hglobals⟩
  have hfuncs : m.funcs = s.funcs ++ [.init s.locals code] := by
    rw [Module.funcs, hforms, List.filterMap_append]
    rfl
  -- the program has one outline, which is the function that runs the statements
  have hnone : s.funcs = [] := by
    have hlength := congrArg List.length hsummary
    rw [hfuncs] at hlength
    simpa using hlength
  rw [hfuncs, hnone] at hsummary ⊢
  have hlocals : s.locals
      = addLocals [] (p.scope.variables ++ ([] ++ (p.body.locate [0]).variables)) :=
    congrArg (fun summary : Summary => summary.2.2.2.1) (List.cons.inj hsummary).1
  -- there is only one scope, which binds each name once
  rw [hflat.variables_eq, List.append_nil, List.append_nil, addLocals_of_nodup] at hlocals
  · rw [hlocals]
    rfl
  · rw [List.nil_append, Scope.variables, List.map_map]
    exact hp.names.sublist (List.Sublist.map _ List.filter_sublist)

/-- A variable among some of those of an integer program has the machine type of integers. -/
theorem IsInteger.lookup_filter (hp : p.IsInteger) {α : Type} (g : ValType → α)
    {f : Binding → Bool} {b : Binding} (hb : b ∈ p.scope.bindings) (hf : f b = true) :
    ((p.scope.bindings.filter f).map fun b => (b.name, g b.info.kind.valType)).lookup b.name
      = some (g .i32) := by
  -- the bindings of the name that are found all have the type of integers
  refine lookup_eq_some_of_mem (List.mem_map.2 ⟨b, List.mem_filter.2 ⟨hb, hf⟩, ?_⟩) ?_
  · rw [(hp.integers b hb).1]
    rfl
  · intro a ha
    obtain ⟨b', hb', heq⟩ := List.mem_map.1 ha
    rw [← (Prod.mk.inj heq).2, (hp.integers b' (List.mem_filter.1 hb').1).1]
    rfl

/-- All variables of an integer program start with zero. -/
theorem IsInteger.agrees_initial (hp : p.IsInteger) (code : Code)
    (hglobals : m.globals = p.scope.globals) :
    Agrees p.env (fun _ => 0) (m.initial (.init p.scope.variables code)) := by
  intro x v hv
  obtain ⟨b, hb, rfl, rfl⟩ := exists_of_env hv
  obtain ⟨hkind, hstorage⟩ := hp.integers b hb
  have hvariable : b.isVariable = true := by simp [Binding.isVariable, hkind, hstorage]
  unfold Store.read
  cases hglobal : b.info.isGlobal with
  | true =>
    have hlookup : p.scope.globals.lookup b.name = some .i32 :=
      hp.lookup_filter id hb (by simp [hvariable, hglobal])
    simp [Module.initial, hglobals, hlookup, zero]
  | false =>
    show (List.map (fun v => (v.1, zero v.2)) p.scope.variables).lookup b.name = _
    rw [Scope.variables, List.map_map]
    exact hp.lookup_filter zero hb (by simp [Binding.isLocal, hvariable, hglobal])

/-- The function that the module of an integer program starts with is found under its name. -/
theorem function?_initName {locals : List (String × ValType)} {code : Code}
    (h : m.funcs = [.init locals code]) : m.function? initName = some (.init locals code) := by
  unfold Module.function? Module.functions
  rw [h, List.find?_append, List.find?_eq_none.2]
  · rfl
  · intro f hf
    obtain ⟨snippet, _, rfl⟩ := List.mem_map.1 hf
    cases snippet <;> decide

/-- The end of the function that a module starts with. -/
theorem exec_init (c : Context) (locals : List (String × ValType)) (code : Code)
    (store : Store) (stack : List Value) :
    (Func.init locals code).body.exec c store stack = (code.exec c store stack).bind .ret := by
  rw [Func.init, Code.exec_lead, Code.exec_join_cons]
  congr 1

/-- Running the module of an integer program takes the bound that direct evaluation takes, and ends
with the same value in every variable. -/
theorem IsInteger.follows_run (hp : p.IsInteger) (h : p.compile.outcome = .ok (m, map))
    (floats : FloatUnit) (bound : Nat) :
    match p.body.run bound (fun _ => 0) with
    | none => m.run floats bound = .timeout
    | some vars => ∃ store stack, m.run floats bound = .ret store stack ∧ Agrees p.env vars store := by
  obtain ⟨s, code, hemits, hsnippets, hfuncs, hglobals⟩ := hp.module_eq h
  have hrun : m.run floats bound = (code.exec (m.context floats bound (bound + 1))
      (m.initial (.init p.scope.variables code)) []).bind .ret := by
    rw [Module.run, function?_initName hfuncs]
    exact exec_init _ _ code _ []
  -- the statements run in the store that the module starts with, where all variables are zero
  have hfollows := (hp.body.locate [0]).followed m floats bound bound _ _ _ _
    (p.env_initial ▸ hp.isInteger_env) hemits (by rw [hsnippets]; exact List.Subset.refl _) (fun _ => 0)
    (m.initial (.init p.scope.variables code)) [] (p.env_initial ▸ hp.agrees_initial code hglobals)
  rw [p.env_initial, hp.body.run_locate,
    show (m.context floats bound (bound + 1)).bound = bound from rfl] at hfollows
  rw [hrun]
  cases hresult : p.body.run bound fun _ => 0 with
  | none =>
    rw [hresult] at hfollows
    exact congrArg (Outcome.bind · .ret) hfollows
  | some vars =>
    rw [hresult] at hfollows
    obtain ⟨after, left, hnext, hagrees⟩ := hfollows
    exact ⟨after, left ++ [], by rw [hnext]; rfl, hagrees⟩

/-- A store that agrees with variables holds the value of every binding of the program. -/
theorem IsInteger.read_eq (hp : p.IsInteger) {vars : Vars} {store : Store}
    (h : Agrees p.env vars store) {b : Binding} (hb : b ∈ p.scope.bindings) :
    store.read b.name b.info = some (.int (vars b.name)) := by
  refine h b.name b.info ?_
  unfold Program.env Env.enter Frame.find?
  rw [Scope.find?_of_mem hp.names hb]

/-- Running the module of an integer program ends exactly if direct evaluation does, and then with
the same value in every variable; it never faults. -/
theorem run_eq_direct (hp : p.IsInteger) (h : p.compile.outcome = .ok (m, map))
    (floats : FloatUnit) :
    ((∃ bound vars, p.body.run bound (fun _ => 0) = some vars) ↔
      ∃ bound store stack, m.run floats bound = .ret store stack) ∧
    (∀ bound bound' vars store stack, p.body.run bound (fun _ => 0) = some vars →
      m.run floats bound' = .ret store stack →
      ∀ b ∈ p.scope.bindings, store.read b.name b.info = some (.int (vars b.name))) ∧
    (∀ bound, m.run floats bound = .timeout ∨
      ∃ store stack, m.run floats bound = .ret store stack) := by
  have hrun : ∀ bound store stack, m.run floats bound = .ret store stack →
      ∃ vars, p.body.run bound (fun _ => 0) = some vars ∧ Agrees p.env vars store := by
    intro bound store stack hret
    have hfollows := hp.follows_run h floats bound
    cases hresult : p.body.run bound fun _ => 0 with
    | none =>
      rw [hresult] at hfollows
      exact absurd (hfollows.symm.trans hret) (by simp)
    | some vars =>
      rw [hresult] at hfollows
      obtain ⟨store', stack', hret', hagrees⟩ := hfollows
      cases hret'.symm.trans hret
      exact ⟨vars, rfl, hagrees⟩
  refine ⟨⟨?_, ?_⟩, ?_, fun bound => ?_⟩
  · rintro ⟨bound, vars, hresult⟩
    have hfollows := hp.follows_run h floats bound
    rw [hresult] at hfollows
    obtain ⟨store, stack, hret, _⟩ := hfollows
    exact ⟨bound, store, stack, hret⟩
  · rintro ⟨bound, store, stack, hret⟩
    obtain ⟨vars, hresult, _⟩ := hrun bound store stack hret
    exact ⟨bound, vars, hresult⟩
  · -- the result does not depend on the bound, once there is one
    intro bound bound' vars store stack hresult hret b hb
    obtain ⟨vars', hresult', hagrees⟩ := hrun bound' store stack hret
    have hmax := hp.body.run_mono (Nat.le_max_left bound bound') hresult
    have hmax' := hp.body.run_mono (Nat.le_max_right bound bound') hresult'
    cases hmax.symm.trans hmax'
    exact hp.read_eq hagrees hb
  · have hfollows := hp.follows_run h floats bound
    cases hresult : p.body.run bound fun _ => 0 with
    | none =>
      rw [hresult] at hfollows
      exact .inl hfollows
    | some vars =>
      rw [hresult] at hfollows
      obtain ⟨store, stack, hret, _⟩ := hfollows
      exact .inr ⟨store, stack, hret⟩

/-- A loop that sums the numbers from three down, `n` being local and `total` global:
`n = 3; n > 0 <| (total += n, n--); total -< 0..5`. -/
def countdown : Program where
  body := .plain (.statements
    [.plain (.assign (.plain (.ident "n")) (.int 3)),
      .plain (.loop (.plain (.compare .gt (.plain (.ident "n")) (.int 0)))
        (.plain (.sequence
          [.plain (.compound .addAssign (.plain (.ident "total")) (.plain (.ident "n"))),
            .plain (.step .decrement (.plain (.ident "n")))]))),
      .plain (.assign (.plain (.ident "total"))
        (.plain (.clamp (.plain (.ident "total")) (.range (some (.int 0)) (some (.int 5))))))])
  scope := ⟨[⟨"n", { kind := .int, storage := .localVar }⟩,
    ⟨"total", { kind := .int, storage := .globalVar }⟩]⟩

/-- The countdown runs to its end in the machine, and leaves five in the global variable. -/
theorem countdown_total : ∃ m map bound store stack, countdown.compile.outcome = .ok (m, map) ∧
    m.run default bound = .ret store stack ∧ store.globals "total" = some (.int 5) := by
  have hassign : ∀ x (value : Expr Scope), value.Scalar →
      (Expr.plain (.assign (.plain (.ident x)) value)).Statement :=
    fun x value hvalue => .scalar (.assign (by simp) hvalue)
  have hp : countdown.IsInteger := by
    refine ⟨.statements fun e he => ?_, by decide, by decide⟩
    simp only [List.mem_cons, List.not_mem_nil, or_false] at he
    rcases he with rfl | rfl | rfl
    · exact hassign _ _ .intLit
    · refine .loop (.compare (by simp) .ident .intLit) (.sequence fun e he => ?_)
      simp only [List.mem_cons, List.not_mem_nil, or_false] at he
      rcases he with rfl | rfl
      · exact .scalar (.compound (by simp) .ident)
      · exact .scalar (.step (by simp))
    · exact hassign _ _ (.clamp (by simp) .ident .intLit .intLit)
  obtain ⟨hends, hvalues, _⟩ := run_eq_direct hp rfl default
  obtain ⟨vars, hrun, htotal⟩ : ∃ vars, countdown.body.run 4 (fun _ => 0) = some vars ∧
      vars "total" = 5 := ⟨_, rfl, rfl⟩
  obtain ⟨bound, store, stack, hret⟩ := hends.1 ⟨4, vars, hrun⟩
  have hvalue := hvalues 4 bound vars store stack hrun hret
    ⟨"total", { kind := .int, storage := .globalVar }⟩ (by simp [countdown])
  rw [htotal] at hvalue
  exact ⟨_, _, bound, store, stack, rfl, hret, hvalue⟩

end Program

end PatchCompiler
