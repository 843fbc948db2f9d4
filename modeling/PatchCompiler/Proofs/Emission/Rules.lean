import Mathlib.Data.List.Forall2
import PatchCompiler.Proofs.Memory.Reservation

/-! # Successful runs of the compiler

`Emits s task codes s'` says that from the state `s` the compiler gives `codes` for a task and ends
in the state `s'`. It has one rule for each way a step can succeed, with the guards of that step as
premises, so that a property of all compilations is an induction over one relation. -/

namespace PatchCompiler

/-! ## What the compiler is asked for -/

/-- Which element of an array is written. -/
inductive Position where
  /-- The one an expression computes. -/
  | computed (index : Expr Frame)
  /-- A fixed one. -/
  | fixed (index : Int32)

/-- The array and the element that an expression on the left of an assignment refers to. -/
def Expr.position? : Expr Frame → Option (Expr Frame × Position)
  | .mk (.index array (some index)) _ _ => some (array, .computed index)
  | .mk (.field object field) _ _ => (Numeral.int32? field).map fun index => (object, .fixed index)
  | _ => none

/-- The two forms of expressions that refer to an element: an index, and a field with a number for a
name. -/
inductive Expr.Locates : Expr Frame → Expr Frame → Position → Prop
  | element {array index ty span} :
    Locates (.mk (.index array (some index)) ty span) array (.computed index)
  | field {object field index ty span} : Numeral.int32? field = some index →
    Locates (.mk (.field object field) ty span) object (.fixed index)

/-- An expression that refers to an element has one of the two forms. -/
theorem Expr.locates_of_position {target array : Expr Frame} {p : Position}
    (h : target.position? = some (array, p)) : target.Locates array p := by
  obtain ⟨node, ty, span⟩ := target
  cases node with
  | index a index =>
    cases index with
    | none => cases h
    | some index => cases h; exact .element
  | field object field =>
    obtain ⟨index, hindex, hpair⟩ := Option.map_eq_some_iff.1 h
    cases hpair
    exact .field hindex
  | _ => cases h

/-- What the compiler can be asked to write code for. -/
inductive Task where
  /-- An expression; a function definition gets the name. -/
  | expr (e : Expr Frame) (name : Option String)
  /-- An expression, brought to a machine type. -/
  | operand (e : Expr Frame) (type : ValType)
  /-- Expressions one after another. -/
  | list (es : List (Expr Frame))
  /-- Arguments of a call, brought to the parameter types that are known. -/
  | args (types : List ValType) (es : List (Expr Frame))
  /-- An operator on two numbers. -/
  | pair (ops : Emit.Instructions) (left right : Expr Frame)
  /-- The index of an array element. -/
  | position (p : Position)
  /-- Members of the array at an address, from a slot on. -/
  | members (base : UInt32) (slot : Nat) (layout : List Member)
  /-- A function. -/
  | definition (header : Emit.Header) (prologue : Option (Expr Frame)) (body : Expr Frame)

/-- The expressions among the members of an array that are stored as numbers. -/
def Member.exprs (layout : List Member) : List (Expr Frame) :=
  layout.filterMap fun
    | .value operand => some operand.expr
    | _ => none

/-- Ranges that are laid out without any code of their own. -/
inductive Expr.IsFixedRange : Expr Frame → Prop
  /-- `min..max` -/
  | between {low high lowTy highTy ty lowSpan highSpan span} :
    IsFixedRange (.mk (.range (some (.mk (.intLit low) lowTy lowSpan))
      (some (.mk (.intLit high) highTy highSpan))) ty span)
  /-- `..max` -/
  | upTo {high highTy ty highSpan span} :
    IsFixedRange (.mk (.range none (some (.mk (.intLit high) highTy highSpan))) ty span)

/-- A member of an array literal is stored as a number, or is a fixed range. -/
theorem Member.ofOperand_cases {kind : Option Kind} {e : Expr Frame}
    {code : Option String → Emit Code} {m : Member} (h : ofOperand kind ⟨e, code⟩ = .ok m) :
    m = .value ⟨e, code⟩ ∨ e.IsFixedRange ∧ ∀ operand, m ≠ .value operand := by
  unfold ofOperand at h
  split at h
  · cases h; exact .inl rfl
  · cases h; exact .inl rfl
  · right
    obtain ⟨node, ty, span⟩ := e
    cases node with
    | range start stop =>
      simp only [ofRange, Expr.node] at h
      -- only a literal upper bound, with a literal lower bound or none, makes a fixed range
      split at h
      · rename_i high hstop
        obtain ⟨⟨_, highTy, highSpan⟩, rfl, rfl⟩ := Option.map_eq_some_iff.1 hstop
        split at h
        · rename_i hstart
          cases Option.map_eq_none_iff.1 hstart
          cases h
          exact ⟨.upTo, by simp⟩
        · rename_i low hstart
          obtain ⟨⟨_, lowTy, lowSpan⟩, rfl, rfl⟩ := Option.map_eq_some_iff.1 hstart
          cases h
          exact ⟨.between, by simp⟩
        · cases h
      · cases h
      · cases h
    | _ => cases h
  · cases h

/-- What is gathered from the members of an array literal can be gathered from its layout, if fixed
ranges contribute nothing. -/
theorem Member.flatMap_exprs {α : Type} {env : Env} {members : List (Expr Frame)}
    {layout : List Member} (f : Expr Frame → List α) (hf : ∀ e, e.IsFixedRange → f e = [])
    (h : List.Forall₂ (fun e m => Member.ofOperand (e.kind env) ⟨e, e.emit⟩ = .ok m)
      members layout) :
    (Member.exprs layout).flatMap f = members.flatMap f := by
  induction h with
  | nil => rfl
  | @cons e m _ _ hm _ ih =>
    rcases ofOperand_cases hm with rfl | ⟨hrange, hne⟩
    · simp only [exprs, List.filterMap_cons, List.flatMap_cons] at ih ⊢
      rw [ih]
    · rw [List.flatMap_cons, hf e hrange, List.nil_append, ← ih]
      cases m with
      | value operand => exact absurd rfl (hne operand)
      | ints low high => rfl
      | reserve count => rfl

namespace Emit.Header

/-- The parameters of a function with their types, if the function's scope binds all of them. -/
def types? (header : Header) : Option (List (String × ValType)) :=
  header.params.mapM fun param =>
    (header.frame.find? param).map fun v => (param, v.kind.paramType)

/-- Code of a body, brought to the type of the function's result. -/
def fit (header : Header) (kind : Option Kind) (code : Code) : Code :=
  match header.result with
  | some result =>
    if code.isEmpty then code else (Coercion.fit result.valType kind).apply code
  | none => code

/-- The function of a header, its parameters and local variables, and the code of its prologue and
body. -/
def func (header : Header) (params locals : List (String × ValType))
    (first second : Code) : Func :=
  { name := header.name
    params := params
    result := header.result.map Kind.valType
    locals := locals
    body := (Code.join .newline [first, second, .one .ret []]).lead .newline }

end Emit.Header

namespace State

/-- The local variables of the function being written, as they are put aside. -/
def table (s : State) : Locals := s.takeLocals.1

/-- The declarations that are put aside are those of the local variables. -/
@[simp] theorem declarations_table (s : State) : s.table.declarations = s.locals := rfl

/-- The names that are put aside are those noted. -/
@[simp] theorem names_table (s : State) : s.table.names = s.localNames := rfl

/-- Note that bindings have been declared. -/
def markAll (s : State) (slots : List Slot) : State := slots.foldl mark s

/-- The state in which the prologue and the body of a function are compiled. -/
def beginFunction (s : State) (header : Emit.Header) (params : List (String × ValType)) : State :=
  let s := (s.record (.function header.name header.params.length)).takeLocals.2
  let s := (s.enter header.frame).markAll (header.params.map header.frame.slot)
  (s.recordSignature header.name (params.map Prod.snd)).declareScope header.frame

/-- The state after a function: it is written, and the local variables put aside are back. -/
def endFunction (s : State) (header : Emit.Header) (saved : Locals) (f : Func) : State :=
  (s.leave.restoreLocals saved).2.pushFunction ⟨header.name, header.role, header.span⟩ f

end State

/-- Whether all kinds are that of integers. -/
def Kind.allInt (kinds : List (Option Kind)) : Prop := ∀ kind ∈ kinds, kind = some .int

/-- The result of operands that are all integers is one. -/
theorem Kind.arithmetic_of_allInt {kinds : List (Option Kind)} (h : allInt kinds) :
    arithmetic kinds = .int := by
  unfold arithmetic
  rw [if_pos (List.all_eq_true.2 fun kind hkind => decide_eq_true (h kind hkind))]

/-- The result of operands that are not all integers is a decimal number. -/
theorem Kind.arithmetic_of_not_allInt {kinds : List (Option Kind)} (h : ¬ allInt kinds) :
    arithmetic kinds = .float := by
  unfold arithmetic
  rw [if_neg]
  intro hall
  exact h fun kind hkind => of_decide_eq_true (List.all_eq_true.1 hall kind hkind)

namespace Emit

/-- Code that loads the length of the array whose address a code leaves. -/
def loadLength (array : Code) : Code :=
  .one .loadInt [.one (.int .sub) [array, address slotBytes]]

/-- Code that writes an array element, from the codes of the array, the index, the array once more
for its length, and the value. -/
def writeElement (array index again value : Code) : Code :=
  .one .storeFloat
    [.one (.int .add)
      [array, .one (.int .shl) [.one (.call Snippet.index.name) [index, loadLength again], .int 3]],
      value]

/-- Code of a loop's test: a decimal number is compared with zero. -/
def testOf (kind : Option Kind) (code : Code) : Code :=
  if kind = some .float then .one (.float .ne) [code, .float ⟨0⟩] else code

/-- Code of a loop. -/
def loopOf (label : Label) (test content : Code) : Code :=
  .one (.loop label)
    [.one .conditional
      [test, .one .thenPart [content.append .space (.one (.branch label) [])]]]

end Emit

/-! ## The rules -/

/-- From a state, the compiler gives codes for a task and ends in a state. -/
inductive Emits : State → Task → List Code → State → Prop
  | statements {s s' items codes ty span name} :
    Emits s (.list items) codes s' →
    Emits s (.expr (.mk (.statements items) ty span) name) [.join .newline codes] s'
  | sequence {s s' items codes ty span name} :
    Emits s (.list items) codes s' →
    Emits s (.expr (.mk (.sequence items) ty span) name) [.join .space codes] s'
  | floatLit {s value ty span name} :
    Emits s (.expr (.mk (.floatLit value) ty span) name) [.float value] s
  | intLit {s value ty span name} :
    Emits s (.expr (.mk (.intLit value) ty span) name) [.int value] s
  | ident {s x v ty span name} :
    s.lookup x = some v →
    Emits s (.expr (.mk (.ident x) ty span) name)
      [if v.kind = .function then [] else Emit.read x v] s
  | function {s s' params result prologue body frame ty span name} :
    Emits s (.definition ⟨name, params, result, frame, span, .function⟩ prologue body) [] s' →
    Emits s (.expr (.mk (.function params result prologue body frame) ty span) (some name)) [[]] s'
  | block {s s' body frame code ty span name} :
    Emits ((s.enter frame).declareScope frame) (.expr body none) [code] s' →
    Emits s (.expr (.mk (.block body frame) ty span) name) [code] s'.leave
  | call {s s' callee args codes ty span name} :
    Emits s (.args ((s.signature? callee).getD []) args) codes s' →
    Emits s (.expr (.mk (.call callee args) ty span) name)
      [.one (.call callee) (codes.filter (!·.isEmpty))] s'
  | negInt {s value operandTy operandSpan ty span name} :
    Emits s (.expr (.mk (.neg (.mk (.intLit value) operandTy operandSpan)) ty span) name)
      [.int (-value)] s
  | negFloat {s value operandTy operandSpan ty span name} :
    Emits s (.expr (.mk (.neg (.mk (.floatLit value) operandTy operandSpan)) ty span) name)
      [.float value.neg] s
  /-- A decimal number is negated by an instruction. -/
  | opposite {s s' operand code ty span name} :
    (∀ value, operand.node ≠ .intLit value) → (∀ value, operand.node ≠ .floatLit value) →
    operand.kind s.env = some .float →
    Emits s (.expr operand none) [code] s' →
    Emits s (.expr (.mk (.neg operand) ty span) name) [.one (.float .neg) [code]] s'
  /-- Anything else is subtracted from zero. -/
  | difference {s s' operand code ty span name} :
    (∀ value, operand.node ≠ .intLit value) → (∀ value, operand.node ≠ .floatLit value) →
    operand.kind s.env ≠ some .float →
    Emits s (.expr operand none) [code] s' →
    Emits s (.expr (.mk (.neg operand) ty span) name) [.one (.int .sub) [.int 0, code]] s'
  | binary {s s' op ops left right code ty span name} :
    Emit.binaryInstructions? op = some ops →
    Emits s (.pair ops left right) [code] s' →
    Emits s (.expr (.mk (.binary op left right) ty span) name) [code] s'
  | compare {s s' op left right code ty span name} :
    Emits s (.pair (Emit.compareInstructions op) left right) [code] s' →
    Emits s (.expr (.mk (.compare op left right) ty span) name) [code] s'
  /-- A step is a compound assignment of the integer one. -/
  | step {s s' op x v targetTy targetSpan code ty span name} :
    s.lookup x = some v → v.kind ≠ .function →
    Emits s (.pair (Emit.compoundInstructions op.compound) (.mk (.ident x) targetTy targetSpan)
      (.int 1)) [code] s' →
    Emits s (.expr (.mk (.step op (.mk (.ident x) targetTy targetSpan)) ty span) name)
      [Emit.store x v code (some (.arithmetic [v.storedKind, some .int]))] s'
  | compound {s s' op x v targetTy targetSpan value code ty span name} :
    s.lookup x = some v → v.kind ≠ .function →
    Emits s (.pair (Emit.compoundInstructions op) (.mk (.ident x) targetTy targetSpan) value)
      [code] s' →
    Emits s (.expr (.mk (.compound op (.mk (.ident x) targetTy targetSpan) value) ty span) name)
      [Emit.store x v code (some (.arithmetic [v.storedKind, value.kind s.env]))] s'
  | clampInt {s s₁ s₂ s' value low high v h l rangeTy rangeSpan ty span name} :
    Kind.allInt [value.kind s.env, low.kind s.env, high.kind s.env] →
    Emits ((s.require .max).require .min) (.expr value none) [v] s₁ →
    Emits s₁ (.expr high none) [h] s₂ →
    Emits s₂ (.expr low none) [l] s' →
    Emits s
      (.expr (.mk (.clamp value (.mk (.range (some low) (some high)) rangeTy rangeSpan)) ty span)
        name)
      [.one (.call Snippet.max.name) [.one (.call Snippet.min.name) [v, h], l]] s'
  | clampFloat {s s₁ s₂ s' value low high v h l rangeTy rangeSpan ty span name} :
    ¬ Kind.allInt [value.kind s.env, low.kind s.env, high.kind s.env] →
    Emits s (.operand value .f64) [v] s₁ →
    Emits s₁ (.operand high .f64) [h] s₂ →
    Emits s₂ (.operand low .f64) [l] s' →
    Emits s
      (.expr (.mk (.clamp value (.mk (.range (some low) (some high)) rangeTy rangeSpan)) ty span)
        name)
      [.one (.float .max) [.one (.float .min) [v, h], l]] s'
  | array {s s' members layout codes base arena₁ arena₂ ty span name} :
    List.Forall₂ (fun e m => Member.ofOperand (e.kind s.env) ⟨e, e.emit⟩ = .ok m) members layout →
    Member.total layout < UInt32.size →
    s.arena.openArray = .ok (base, arena₁) →
    arena₁.advance (.ofNat (Member.total layout)) = .ok arena₂ →
    Emits ({ s with arena := arena₂ }.record
      (.array span base (.ofNat (Member.total layout)))) (.members base 0 layout) codes s' →
    Emits s (.expr (.mk (.array members) ty span) name)
      [Emit.arrayOf base (Member.total layout) codes] s'
  | length {s s' array code ty span name} :
    array.kind s.env = some .pointer →
    Emits s (.expr array none) [code] s' →
    Emits s (.expr (.mk (.index array none) ty span) name) [Emit.loadLength code] s'
  /-- A function definition that is assigned to a name gets the name. -/
  | assignFunction {s s' x targetTy targetSpan value code ty span name} :
    value.isFunction = true →
    Emits s (.expr value (some x)) [code] s' →
    Emits s (.expr (.mk (.assign (.mk (.ident x) targetTy targetSpan) value) ty span) name)
      [code] s'
  | assignName {s s' x v targetTy targetSpan value kind code ty span name} :
    value.isFunction = false →
    s.lookup x = some v → v.kind ≠ .function →
    value.kind s.env = some kind → kind ≠ .function →
    Emits s (.expr value none) [code] s' →
    Emits s (.expr (.mk (.assign (.mk (.ident x) targetTy targetSpan) value) ty span) name)
      [Emit.store x v code (some kind)] s'
  /-- The array is compiled a second time for its length. -/
  | assignPart {s s₁ s₂ s₃ s' target array position value v b i n ty span name} :
    target.position? = some (array, position) →
    Emits s (.operand value .f64) [v] s₁ →
    Emits (s₁.require .index) (.expr array none) [b] s₂ →
    Emits s₂ (.position position) [i] s₃ →
    array.kind s₃.env = some .pointer →
    Emits s₃ (.expr array none) [n] s' →
    Emits s (.expr (.mk (.assign target value) ty span) name) [Emit.writeElement b i n v] s'
  | loop {s s₁ s₂ cond body test content ty span name} :
    Emits s.enterLoop (.expr cond none) [test] s₁ →
    Emits s₁ (.expr body none) [content] s₂ →
    Emits s (.expr (.mk (.loop cond body) ty span) name)
      [Emit.loopOf (s.loopDepth + 1) (Emit.testOf (cond.kind s₁.env) test) content] s₂.exitLoop
  | operand {s s' e type code} :
    Emits s (.expr e none) [code] s' →
    Emits s (.operand e type) [(Coercion.toType type (e.kind s.env)).apply code] s'
  | listNil {s} : Emits s (.list []) [] s
  | listCons {s s₁ s' e rest code codes} :
    Emits s (.expr e none) [code] s₁ →
    Emits s₁ (.list rest) codes s' →
    Emits s (.list (e :: rest)) (code :: codes) s'
  | argsNil {s types} : Emits s (.args types []) [] s
  /-- Arguments beyond the parameters that are known are not converted. -/
  | argsFree {s s₁ s' e rest code codes} :
    Emits s (.expr e none) [code] s₁ →
    Emits s₁ (.args [] rest) codes s' →
    Emits s (.args [] (e :: rest)) (code :: codes) s'
  | argsCons {s s₁ s' type types e rest code codes} :
    Emits s (.operand e type) [code] s₁ →
    Emits s₁ (.args types rest) codes s' →
    Emits s (.args (type :: types) (e :: rest)) (code :: codes) s'
  | pairInt {s s₁ s' ops left right l r} :
    Kind.allInt [left.kind s.env, right.kind s.env] →
    Emits s (.expr left none) [l] s₁ →
    Emits s₁ (.expr right none) [r] s' →
    Emits s (.pair ops left right) [.one (.int ops.int) [l, r]] s'
  | pairFloat {s s₁ s' ops left right l r} :
    ¬ Kind.allInt [left.kind s.env, right.kind s.env] →
    Emits s (.operand left .f64) [l] s₁ →
    Emits s₁ (.operand right .f64) [r] s' →
    Emits s (.pair ops left right) [.one (.float ops.float) [l, r]] s'
  | computed {s s' index code} :
    Emits s (.operand index .i32) [code] s' →
    Emits s (.position (.computed index)) [code] s'
  | fixed {s index} : Emits s (.position (.fixed index)) [.int index] s
  | membersNil {s base slot} : Emits s (.members base slot []) [] s
  /-- An integer literal is converted when it is compiled. -/
  | memberInt {s s' base slot operand value rest codes} :
    operand.expr.node = .intLit value →
    Emits s (.members base (slot + 1) rest) codes s' →
    Emits s (.members base slot (.value operand :: rest))
      (Emit.storeSlot base slot (.float (.ofInt32 value)) :: codes) s'
  | memberValue {s s₁ s' base slot operand rest code codes} :
    (∀ value, operand.expr.node ≠ .intLit value) →
    Emits s (.operand operand.expr .f64) [code] s₁ →
    Emits s₁ (.members base (slot + 1) rest) codes s' →
    Emits s (.members base slot (.value operand :: rest))
      (Emit.storeSlot base slot code :: codes) s'
  | memberInts {s s' base slot low high rest codes} :
    Emits s (.members base (slot + (Member.intRange low high).length) rest) codes s' →
    Emits s (.members base slot (.ints low high :: rest))
      ((Member.intRange low high).zipIdx.map (fun (value, i) =>
        Emit.storeSlot base (slot + i) (.float (.ofInt32 value))) ++ codes) s'
  | memberReserve {s s' base slot count rest codes} :
    Emits s (.members base (slot + count.toNat) rest) codes s' →
    Emits s (.members base slot (.reserve count :: rest)) codes s'
  | definition {s s₁ s₂ header prologue body params first second} :
    header.types? = some params →
    Emits (s.beginFunction header params) (.list prologue.toList) first s₁ →
    Emits s₁ (.expr body none) [second] s₂ →
    Emits s (.definition header prologue body) []
      (s₂.endFunction header s.table
        (header.func params s₂.locals first.flatten (header.fit (body.kind s₂.env) second)))

end PatchCompiler
