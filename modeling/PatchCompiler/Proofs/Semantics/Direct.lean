import PatchCompiler.Proofs.Semantics.Arithmetic
import PatchCompiler.Proofs.Tree.Enclosure

/-! # Direct evaluation of integer programs

Integer programs work on integer variables: statements one after another, loops, and expressions made
of literals, variables, arithmetic, comparisons, clamps and assignments. An expression gives a value
and may change variables on the way; its operands are evaluated from left to right, those of a clamp
in the order value, upper end, lower end. A statement may run forever, so that its evaluation takes a
bound on how often a loop runs, and gives nothing if that is not enough. -/

namespace PatchCompiler

open Machine

/-- Values of variables. -/
abbrev Vars := String → Int32

/-- Give a variable a value. -/
def Vars.set (vars : Vars) (x : String) (v : Int32) : Vars := fun y => if y = x then v else vars y

section

variable {σ : Type}

/-! ## Which expressions and statements there are -/

/-- Expressions with an integer value, on integer variables. A node may be annotated with the kind
it has. -/
inductive Expr.Scalar : Expr σ → Prop
  | intLit {value ty span} : Scalar (.mk (.intLit value) ty span)
  | ident {x ty span} : Scalar (.mk (.ident x) ty span)
  | neg {operand ty span} : ty ∈ [none, some .int] → Scalar operand →
    Scalar (.mk (.neg operand) ty span)
  | binary {op left right ty span} : ty ∈ [none, some .int] → op ≠ .bitOr →
    Scalar left → Scalar right → Scalar (.mk (.binary op left right) ty span)
  | compare {op left right ty span} : ty ∈ [none, some .int] →
    Scalar left → Scalar right → Scalar (.mk (.compare op left right) ty span)
  | clamp {value low high rangeTy rangeSpan ty span} : ty ∈ [none, some .int] →
    Scalar value → Scalar low → Scalar high →
    Scalar (.mk (.clamp value (.mk (.range (some low) (some high)) rangeTy rangeSpan)) ty span)
  | assign {x targetTy targetSpan value ty span} : ty ∈ [none, some .int] → Scalar value →
    Scalar (.mk (.assign (.mk (.ident x) targetTy targetSpan) value) ty span)
  | compound {op x targetTy targetSpan value ty span} : ty ∈ [none, some .int] → Scalar value →
    Scalar (.mk (.compound op (.mk (.ident x) targetTy targetSpan) value) ty span)
  | step {op x targetTy targetSpan ty span} : ty ∈ [none, some .int] →
    Scalar (.mk (.step op (.mk (.ident x) targetTy targetSpan)) ty span)

/-- Statements: expressions, lists of statements, and loops. -/
inductive Expr.Statement : Expr σ → Prop
  | statements {items ty span} : (∀ e ∈ items, Statement e) → Statement (.mk (.statements items) ty span)
  | sequence {items ty span} : (∀ e ∈ items, Statement e) → Statement (.mk (.sequence items) ty span)
  | loop {cond body ty span} : cond.Scalar → Statement body → Statement (.mk (.loop cond body) ty span)
  | scalar {e} : e.Scalar → Statement e

/-! ## Evaluation -/

/-- The value of an expression, and the variables after it. -/
def Expr.value : Expr σ → Vars → Int32 × Vars
  | .mk (.intLit v) _ _, vars => (v, vars)
  | .mk (.ident x) _ _, vars => (vars x, vars)
  | .mk (.neg operand) _ _, vars =>
    let (v, vars) := operand.value vars
    (-v, vars)
  | .mk (.binary op left right) _ _, vars =>
    let (a, vars) := left.value vars
    let (b, vars) := right.value vars
    (op.eval a b, vars)
  | .mk (.compare op left right) _ _, vars =>
    let (a, vars) := left.value vars
    let (b, vars) := right.value vars
    (truth (op.eval a b), vars)
  | .mk (.clamp value (.mk (.range (some low) (some high)) _ _)) _ _, vars =>
    let (v, vars) := value.value vars
    let (h, vars) := high.value vars
    let (l, vars) := low.value vars
    (max (min v h) l, vars)
  | .mk (.assign (.mk (.ident x) _ _) value) _ _, vars =>
    let (v, vars) := value.value vars
    (v, vars.set x v)
  -- the variable is read before the value is evaluated, which may change it
  | .mk (.compound op (.mk (.ident x) _ _) value) _ _, vars =>
    let (b, after) := value.value vars
    let v := op.binary.eval (vars x) b
    (v, after.set x v)
  | .mk (.step op (.mk (.ident x) _ _)) _ _, vars =>
    let v := op.compound.binary.eval (vars x) 1
    (v, vars.set x v)
  -- nothing else is an integer expression
  | _, vars => (0, vars)

/-- Run a body as long as a test gives a number other than zero, at most so often. -/
def repeatWhile (test : Vars → Int32 × Vars) (body : Vars → Option Vars) :
    Nat → Vars → Option Vars
  | 0, _ => none
  | n + 1, vars =>
    if (test vars).1 = 0 then some (test vars).2
    else (body (test vars).2).bind (repeatWhile test body n)

mutual

/-- The variables after a statement, if the bound is enough for its loops. -/
def Expr.run (bound : Nat) : Expr σ → Vars → Option Vars
  | .mk (.statements items) _ _, vars => Expr.runList bound items vars
  | .mk (.sequence items) _ _, vars => Expr.runList bound items vars
  -- the same bound holds for every loop, inside and outside
  | .mk (.loop cond body) _ _, vars => repeatWhile cond.value (body.run bound) bound vars
  | e, vars => some (e.value vars).2

/-- The variables after statements that run one after another. -/
def Expr.runList (bound : Nat) : List (Expr σ) → Vars → Option Vars
  | [], vars => some vars
  | e :: rest, vars => (e.run bound vars).bind (Expr.runList bound rest)

end

/-- An expression runs by being evaluated. -/
theorem Expr.Scalar.run_eq {e : Expr σ} (h : e.Scalar) (bound : Nat) (vars : Vars) :
    e.run bound vars = some (e.value vars).2 := by
  cases h <;> rfl

/-! ## The bound -/

/-- A loop that has ended within a bound ends in the same way within a greater one. -/
theorem repeatWhile_mono {test : Vars → Int32 × Vars} {body body' : Vars → Option Vars}
    (hbody : ∀ vars after, body vars = some after → body' vars = some after) {n n' : Nat}
    (hn : n ≤ n') {vars after : Vars} (h : repeatWhile test body n vars = some after) :
    repeatWhile test body' n' vars = some after := by
  induction n generalizing n' vars with
  | zero => cases h
  | succ n ih =>
    obtain ⟨k, rfl⟩ : ∃ k, n' = k + 1 := ⟨n' - 1, by omega⟩
    unfold repeatWhile at h ⊢
    by_cases htest : (test vars).1 = 0
    · rw [if_pos htest] at h ⊢
      exact h
    · -- one round fewer is left for the rest on both sides
      rw [if_neg htest] at h ⊢
      obtain ⟨middle, hmiddle, hrest⟩ := Option.bind_eq_some_iff.1 h
      rw [hbody _ _ hmiddle]
      exact ih (by omega) hrest

/-- Statements that run one after another. -/
theorem Expr.runList_mono {items : List (Expr σ)} {bound bound' : Nat}
    (h : ∀ e ∈ items, ∀ vars after, e.run bound vars = some after → e.run bound' vars = some after)
    {vars after : Vars} (hrun : Expr.runList bound items vars = some after) :
    Expr.runList bound' items vars = some after := by
  induction items generalizing vars with
  | nil => exact hrun
  | cons e rest ih =>
    obtain ⟨middle, hmiddle, hrest⟩ := Option.bind_eq_some_iff.1 hrun
    rw [runList, h e List.mem_cons_self _ _ hmiddle]
    exact ih (fun e' he' => h e' (List.mem_cons_of_mem _ he')) hrest

/-- A statement that has ended within a bound ends in the same way within a greater one. -/
theorem Expr.Statement.run_mono {e : Expr σ} (h : e.Statement) {bound bound' : Nat}
    (hbound : bound ≤ bound') {vars after : Vars} (hrun : e.run bound vars = some after) :
    e.run bound' vars = some after := by
  induction h generalizing vars after with
  | statements _ ih => exact runList_mono (fun e he vars after => ih e he) hrun
  | sequence _ ih => exact runList_mono (fun e he vars after => ih e he) hrun
  | loop _ _ ih => exact repeatWhile_mono (fun _ _ => ih) hbound hrun
  | scalar h =>
    rw [h.run_eq] at hrun ⊢
    exact hrun

end

/-! ## Places of scopes

Integer programs have no scopes but the outermost one, so that they do not change when scopes get
their places. -/

namespace Expr

variable {e : Expr Scope}

/-- Numbers stay numbers when their scopes are located. -/
theorem Scalar.locate (h : e.Scalar) (site : Site) : (e.locate site).Scalar := by
  induction h generalizing site with
  | intLit => exact .intLit
  | ident => exact .ident
  | neg hty _ ih => exact .neg hty (ih _)
  | binary hty hop _ _ ihl ihr => exact .binary hty hop (ihl _) (ihr _)
  | compare hty _ _ ihl ihr => exact .compare hty (ihl _) (ihr _)
  | clamp hty _ _ _ ihv ihl ihh => exact .clamp hty (ihv _) (ihl _) (ihh _)
  | assign hty _ ih => exact .assign hty (ih _)
  | compound hty _ ih => exact .compound hty (ih _)
  | step hty => exact .step hty

/-- The value of a number does not depend on where its scopes are. -/
theorem Scalar.value_locate (h : e.Scalar) (site : Site) : (e.locate site).value = e.value := by
  induction h generalizing site with
  | intLit => rfl
  | ident => rfl
  | neg _ _ ih => funext vars; simp [Expr.locate, Node.locate, Expr.value, ih]
  | binary _ _ _ _ ihl ihr => funext vars; simp [Expr.locate, Node.locate, Expr.value, ihl, ihr]
  | compare _ _ _ ihl ihr => funext vars; simp [Expr.locate, Node.locate, Expr.value, ihl, ihr]
  | clamp _ _ _ _ ihv ihl ihh =>
    funext vars
    simp [Expr.locate, Node.locate, Expr.locateOption, Expr.value, ihv, ihl, ihh]
  | assign _ _ ih => funext vars; simp [Expr.locate, Node.locate, Expr.value, ih]
  | compound _ _ ih => funext vars; simp [Expr.locate, Node.locate, Expr.value, ih]
  | step => rfl

/-- Statements stay statements when their scopes are located. -/
theorem Statement.locate (h : e.Statement) (site : Site) : (e.locate site).Statement := by
  induction h generalizing site with
  | statements _ ih =>
    refine .statements fun e he => ?_
    obtain ⟨i, e', he', rfl⟩ := mem_locateList he
    exact ih e' he' _
  | sequence _ ih =>
    refine .sequence fun e he => ?_
    obtain ⟨i, e', he', rfl⟩ := mem_locateList he
    exact ih e' he' _
  | loop hcond _ ih => exact .loop (hcond.locate _) (ih _)
  | scalar h => exact .scalar (h.locate _)

/-- Statements in turn run alike wherever their scopes are, if each one does. -/
theorem runList_locateList {bound : Nat} {items : List (Expr Scope)}
    (h : ∀ e ∈ items, ∀ site, (e.locate site).run bound = e.run bound) (site : Site) (first : Nat) :
    Expr.runList bound (Expr.locateList site first items) = Expr.runList bound items := by
  induction items generalizing first with
  | nil => rfl
  | cons e rest ih =>
    funext vars
    rw [locateList, runList, runList, h e List.mem_cons_self,
      ih fun e' he' => h e' (List.mem_cons_of_mem _ he')]

/-- A statement runs alike wherever its scopes are. -/
theorem Statement.run_locate (h : e.Statement) (bound : Nat) (site : Site) :
    (e.locate site).run bound = e.run bound := by
  induction h generalizing site with
  | statements _ ih => exact runList_locateList ih site 0
  | sequence _ ih => exact runList_locateList ih site 0
  | loop hcond _ ih =>
    funext vars
    simp only [Expr.locate, Node.locate, Expr.run, hcond.value_locate, ih]
  | scalar h =>
    funext vars
    rw [h.run_eq, (h.locate site).run_eq, h.value_locate]

end Expr

end PatchCompiler
