import PatchCompiler.Emit.State

/-! # The kind of an expression

Literals have the kind of their form and names that of their variable. Any other node has the kind
that analysis recorded, and if it recorded none the one that the form of the node implies. -/

namespace PatchCompiler

/-- Kind of a variable when it is read: a numeric parameter arrives as a decimal number. -/
def Variable.storedKind (v : Variable) : Kind :=
  if v.kind.isNumeric && v.valType = .f64 then .float else v.kind

/-- The variables that names stand for. -/
abbrev Env := String → Option Variable

/-- The variables that names stand for inside a scope. -/
def Env.enter (env : Env) (frame : Frame) : Env := fun name =>
  match frame.find? name with
  | some v => some v
  | none => env name

/-- The variables that names stand for in a state. -/
def State.env (s : State) : Env := s.lookup

/-- Kind of a result computed from operands: an integer if all of them are. -/
def Kind.arithmetic (kinds : List (Option Kind)) : Kind :=
  if kinds.all (· = some .int) then .int else .float

/-- Kind that storing to a target leaves: that of the variable, read back. -/
def Expr.targetKind (env : Env) : Expr Frame → Option Kind
  | .mk (.ident name) _ _ => (env name).map Variable.storedKind
  | _ => none

/-- Whether an expression is a function definition. -/
def Expr.isFunction {σ : Type} : Expr σ → Bool
  | .mk (.function ..) _ _ => true
  | _ => false

/-- Whether an expression is a name. -/
def Expr.isIdent {σ : Type} : Expr σ → Bool
  | .mk (.ident _) _ _ => true
  | _ => false

mutual

/-- Kind of the value of an expression, if it has one that is known. -/
def Expr.kind (env : Env) : Expr Frame → Option Kind
  | .mk (.intLit _) _ _ => some .int
  | .mk (.floatLit _) _ _ => some .float
  | .mk (.ident name) _ _ => (env name).map Variable.storedKind
  | .mk _ (some kind) _ => some kind
  | .mk (.statements items) none _ => Expr.lastKind env items
  | .mk (.sequence items) none _ => Expr.lastKind env items
  | .mk (.function ..) none _ => some .function
  | .mk (.block body frame) none _ => body.kind (env.enter frame)
  | .mk (.neg operand) none _ => operand.kind env
  | .mk (.binary .bitOr _ _) none _ => none
  | .mk (.binary _ left right) none _ => some (.arithmetic [left.kind env, right.kind env])
  | .mk (.compare ..) none _ => some .int
  | .mk (.clamp value (.mk (.range (some low) (some high)) _ _)) none _ =>
    some (.arithmetic [value.kind env, low.kind env, high.kind env])
  | .mk (.clamp ..) none _ => none
  | .mk (.range ..) none _ => some .range
  | .mk (.array _) none _ => some .pointer
  | .mk (.index _ none) none _ => some .int
  | .mk (.index _ (some _)) none _ => some .float
  | .mk (.field ..) none _ => some .float
  | .mk (.assign target value) none _ =>
    if target.isIdent && value.isFunction then some .function else target.targetKind env
  | .mk (.step _ target) none _ => target.targetKind env
  | .mk (.compound _ target _) none _ => target.targetKind env
  | .mk (.call ..) none _ => none
  | .mk (.loop ..) none _ => none

/-- Kind of the last expression of a list. -/
def Expr.lastKind (env : Env) : List (Expr Frame) → Option Kind
  | [] => none
  | [e] => e.kind env
  | _ :: e :: rest => Expr.lastKind env (e :: rest)

end

/-! ## Conversions between machine types -/

/-- How a value is brought to a machine type. -/
inductive Coercion where
  /-- Left as it is. -/
  | keep
  /-- Integer to floating-point. -/
  | convert
  /-- Floating-point to integer. -/
  | truncate
  deriving DecidableEq, Repr

namespace Coercion

/-- To floating-point: a value of any kind but a decimal number is taken for an integer. -/
def toFloat (kind : Option Kind) : Coercion := if kind = some .float then .keep else .convert

/-- To an integer: only a decimal number changes. -/
def toInt (kind : Option Kind) : Coercion := if kind = some .float then .truncate else .keep

/-- To a machine type. -/
def toType (type : ValType) (kind : Option Kind) : Coercion :=
  match type with
  | .f64 => toFloat kind
  | .i32 => toInt kind

/-- To a machine type, where a value of unknown kind is left alone. -/
def fit (type : ValType) (kind : Option Kind) : Coercion :=
  if kind = none then .keep else toType type kind

/-- Convert the value that code leaves. -/
def apply : Coercion → Code → Code
  | .keep, code => code
  | .convert, code => .one .convert [code]
  | .truncate, code => .one .truncate [code]

/-- Convert the value that code given as text leaves. -/
def wrap : Coercion → String → String
  | .keep, text => text
  | .convert, text => "(" ++ Wasm.headText .convert ++ " " ++ text ++ ")"
  | .truncate, text => "(" ++ Wasm.headText .truncate ++ " " ++ text ++ ")"

end Coercion

end PatchCompiler
