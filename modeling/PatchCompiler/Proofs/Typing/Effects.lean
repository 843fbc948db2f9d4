import PatchCompiler.Proofs.Typing.Fragment
import PatchCompiler.Proofs.Wasm.Effects

/-! # What expressions do to the stack

`Expr.effect` tells, from the tree alone, what the code of an expression does to the types of the
values on the stack, if it is accepted. Operands are brought to the type that their instruction takes
by the kind that is inferred for them, and lists leave the values of all their members. A program is
well typed if the effects of the body of each function lead to its result and what it exports is
there. This can be decided. -/

namespace PatchCompiler

open Validation

/-! ## Effects of instructions -/

/-- What every expression of a program may use, whatever names stand for. -/
structure Facilities where
  /-- Functions of the program. -/
  functions : List Outline
  /-- Whether there is a memory. -/
  memory : Bool

namespace Facilities

/-- The types of a function of the program. -/
def signature (f : Facilities) (callee : String) : Signature :=
  match f.functions.find? (·.name = callee) with
  | some o => (o.params.map Prod.snd, o.result.map Kind.valType)
  | none => ([], none)

/-- What an instruction does that uses memory. -/
def onMemory (f : Facilities) (signature : Signature) : Effect :=
  if f.memory then .ofSignature signature else .refuse

/-- The length of the array is loaded whose address is on top. -/
def loadLength (f : Facilities) : Effect :=
  (Effect.push .i32).andThen (Effect.ints.andThen (f.onMemory ([.i32], some .i32)))

/-- A number is stored at a fixed address. -/
def storeNumber (f : Facilities) (number : Effect) : Effect :=
  ((Effect.push .i32).andThen number).andThen (f.onMemory ([.i32, .f64], none))

/-- What the store of a number does to an array element, from the effects of the array, of the index
and of the number. -/
def storeElement (f : Facilities) (array index value : Effect) : Effect :=
  let offset := index.andThen ((array.andThen f.loadLength).andThen Effect.ints)
  let address := array.andThen ((offset.andThen ((Effect.push .i32).andThen Effect.ints)).andThen
    Effect.ints)
  address.andThen (value.andThen (f.onMemory ([.i32, .f64], none)))

end Facilities

namespace Validation.Effect

/-- A value of a kind is brought to a machine type. -/
def brought (f : Effect) (type : ValType) (kind : Option Kind) : Effect :=
  f.andThen (Coercion.toType type kind).effect

/-- An operator on two numbers of kinds: on integers if both are, and otherwise on floating-point
numbers, where it has the given types. -/
def pair (signature : Signature) (left right : Option Kind) (l r : Effect) : Effect :=
  if Kind.arithmetic [left, right] = .int then (l.andThen r).andThen .ints
  else ((l.brought .f64 left).andThen (r.brought .f64 right)).andThen (.ofSignature signature)

/-- A number of a kind is stored to a variable and read back. -/
def store (target : Option Variable) (kind : Option Kind) : Effect :=
  match target with
  | some v =>
    (Coercion.fit v.valType kind).effect.andThen (.ofSignature ([v.valType], some v.valType))
  | none => .refuse

/-- A number of a kind is compared with zero if it is a decimal number. -/
def test (f : Effect) (kind : Option Kind) : Effect :=
  if kind = some .float then
    (f.andThen (.push .f64)).andThen (.ofSignature ([.f64, .f64], some .i32))
  else f

end Validation.Effect

/-! ## Effects of expressions -/

mutual

/-- What the code of an expression does to the stack. Expressions that the compiler refuses have no
code. -/
def Expr.effect (f : Facilities) (env : Env) : Expr Frame → Effect
  | .mk (.statements items) _ _ => Expr.effectList f env items
  | .mk (.sequence items) _ _ => Expr.effectList f env items
  | .mk (.floatLit _) _ _ => .push .f64
  | .mk (.intLit _) _ _ => .push .i32
  | .mk (.ident x) _ _ =>
    match env x with
    | some v => if v.kind = .function then .skip else .push v.valType
    | none => .refuse
  | .mk (.function ..) _ _ => .skip
  | .mk (.block body frame) _ _ => body.effect f (env.enter frame)
  | .mk (.call callee args) _ _ =>
    (Expr.effectArgs f env (f.signature callee).1 args).andThen (.ofSignature (f.signature callee))
  -- a number other than a decimal one is subtracted from zero
  | .mk (.neg operand) _ _ =>
    if operand.kind env = some .float then
      (operand.effect f env).andThen (.ofSignature ([.f64], some .f64))
    else ((Effect.push .i32).andThen (operand.effect f env)).andThen .ints
  | .mk (.binary _ left right) _ _ =>
    .pair ([.f64, .f64], some .f64) (left.kind env) (right.kind env) (left.effect f env)
      (right.effect f env)
  | .mk (.compare _ left right) _ _ =>
    .pair ([.f64, .f64], some .i32) (left.kind env) (right.kind env) (left.effect f env)
      (right.effect f env)
  | .mk (.step _ target) _ _ =>
    (Effect.pair ([.f64, .f64], some .f64) (target.kind env) (some .int) (target.effect f env)
      (.push .i32)).andThen
      (.store (target.ident?.bind env) (some (.arithmetic [target.kind env, some .int])))
  | .mk (.compound _ target value) _ _ =>
    (Effect.pair ([.f64, .f64], some .f64) (target.kind env) (value.kind env) (target.effect f env)
      (value.effect f env)).andThen
      (.store (target.ident?.bind env) (some (.arithmetic [target.kind env, value.kind env])))
  | .mk (.clamp value (.mk (.range (some low) (some high)) _ _)) _ _ =>
    if Kind.arithmetic [value.kind env, low.kind env, high.kind env] = .int then
      (((value.effect f env).andThen (high.effect f env)).andThen Effect.ints).andThen
        (low.effect f env) |>.andThen Effect.ints
    else
      let numbers : Effect := .ofSignature ([.f64, .f64], some .f64)
      ((((value.effect f env).brought .f64 (value.kind env)).andThen
        ((high.effect f env).brought .f64 (high.kind env))).andThen numbers).andThen
        ((low.effect f env).brought .f64 (low.kind env)) |>.andThen numbers
  | .mk (.clamp ..) _ _ => .refuse
  | .mk (.range ..) _ _ => .refuse
  | .mk (.array members) _ _ => (Expr.effectMembers f env members).andThen (.push .i32)
  | .mk (.index array none) _ _ => (array.effect f env).andThen f.loadLength
  | .mk (.index _ (some _)) _ _ => .refuse
  | .mk (.field ..) _ _ => .refuse
  | .mk (.assign (.mk (.index array (some index)) _ _) value) _ _ =>
    f.storeElement (array.effect f env) ((index.effect f env).brought .i32 (index.kind env))
      ((value.effect f env).brought .f64 (value.kind env))
  | .mk (.assign (.mk (.field object _) _ _) value) _ _ =>
    f.storeElement (object.effect f env) (.push .i32)
      ((value.effect f env).brought .f64 (value.kind env))
  | .mk (.assign (.mk (.ident x) _ _) value) _ _ =>
    if value.isFunction then .skip
    else (value.effect f env).andThen (.store (env x) (value.kind env))
  | .mk (.assign ..) _ _ => .refuse
  | .mk (.loop cond body) _ _ =>
    .loop ((cond.effect f env).test (cond.kind env)) (body.effect f env)

/-- What the codes of a list of expressions do to the stack in turn. -/
def Expr.effectList (f : Facilities) (env : Env) : List (Expr Frame) → Effect
  | [] => .skip
  | e :: rest => (e.effect f env).andThen (Expr.effectList f env rest)

/-- What the arguments of a call do to the stack, which are brought to the types of parameters as far
as there are any. -/
def Expr.effectArgs (f : Facilities) (env : Env) : List ValType → List (Expr Frame) → Effect
  | _, [] => .skip
  | [], e :: rest => (e.effect f env).andThen (Expr.effectArgs f env [] rest)
  | type :: types, e :: rest =>
    ((e.effect f env).brought type (e.kind env)).andThen (Expr.effectArgs f env types rest)

/-- What the members of an array literal do to the stack: each one but a range is stored. -/
def Expr.effectMembers (f : Facilities) (env : Env) : List (Expr Frame) → Effect
  | [] => .skip
  | e :: rest =>
    (if e.kind env = some .range then Effect.skip
      else f.storeNumber ((e.effect f env).brought .f64 (e.kind env))).andThen
        (Expr.effectMembers f env rest)

end

mutual

/-- Whether an expression has no code: it only defines or names functions. -/
def Expr.isSilent (env : Env) : Expr Frame → Bool
  | .mk (.statements items) _ _ => Expr.areSilent env items
  | .mk (.sequence items) _ _ => Expr.areSilent env items
  | .mk (.ident x) _ _ => (env x).any (·.kind = .function)
  | .mk (.function ..) _ _ => true
  | .mk (.block body frame) _ _ => body.isSilent (env.enter frame)
  | .mk (.assign (.mk (.ident _) _ _) value) _ _ => value.isFunction
  | _ => false

/-- Whether all expressions of a list have no code. -/
def Expr.areSilent (env : Env) : List (Expr Frame) → Bool
  | [] => true
  | e :: rest => e.isSilent env && Expr.areSilent env rest

end

/-- A name is read with the type of its variable, unless it is that of a function. -/
theorem Expr.effect_ident {f : Facilities} {env : Env} {x : String} {v : Variable}
    {ty : Option Kind} {span : Span} (h : env x = some v) :
    (Expr.mk (.ident x) ty span).effect f env
      = if v.kind = .function then .skip else .push v.valType := by
  rw [Expr.effect, h]

/-! ## Well-typed programs -/

/-- The value of a body is brought to the type of a result, unless the body has no code. -/
def Expr.fitted (env : Env) (result : Option Kind) (body : Expr Frame) : Effect :=
  match result with
  | some kind =>
    if body.isSilent env then .skip else (Coercion.fit kind.valType (body.kind env)).effect
  | none => .skip

/-- What the code of a function does: what runs before the body, the body, whose value is brought to
the type of the result, and the return. -/
def Facilities.run (f : Facilities) (env : Env) (result : Option Kind)
    (prologue : Option (Expr Frame)) (body : Expr Frame) : Effect :=
  (Expr.effectList f env prologue.toList).andThen
    (((body.effect f env).andThen (body.fitted env result)).andThen
      (.take (result.map Kind.valType).toList))

/-- Whether a node that the compiler comes to leads to its result if it is a function definition. -/
def Visit.isTyped (f : Facilities) (v : Visit) : Bool :=
  match v.expr with
  | .mk (.function _ result prologue body frame) _ _ =>
    (f.run (v.env.enter frame) result prologue body []).isSome
  | _ => true

namespace Program

/-- What every expression of a program may use. -/
def facilities (p : Program) : Facilities := ⟨p.outlines, p.setting.memory⟩

/-- The code of each function of a program is accepted, and what the program exports is there. -/
structure WellTyped (p : Program) : Prop where
  /-- No function is defined in the array of an element that is assigned to. -/
  once : ∀ o ∈ p.outlines, o.again = false
  /-- What is exported is there. -/
  exports : p.ExportsFit
  /-- The functions that are defined lead to their results. -/
  functions : ∀ v ∈ p.visits, v.isTyped p.facilities = true
  /-- The top-level statements are accepted. -/
  body : (p.facilities.run p.setting.env none none (p.body.locate [0]) []).isSome = true

/-- Whether a program is well typed can be decided. -/
instance (p : Program) : Decidable p.WellTyped :=
  decidable_of_iff ((∀ o ∈ p.outlines, o.again = false) ∧ p.ExportsFit ∧
      (∀ v ∈ p.visits, v.isTyped p.facilities = true) ∧
      (p.facilities.run p.setting.env none none (p.body.locate [0]) []).isSome = true)
    ⟨fun ⟨honce, hexports, hfunctions, hbody⟩ => ⟨honce, hexports, hfunctions, hbody⟩,
      fun h => ⟨h.once, h.exports, h.functions, h.body⟩⟩

end Program

end PatchCompiler
