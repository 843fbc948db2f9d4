import PatchCompiler.Proofs.Emission.Actions
import PatchCompiler.Proofs.Emission.Growth
import PatchCompiler.Proofs.Locals.Agreement

/-! # Programs whose code is accepted

Two conditions on programs. A program is regular if names, calls and annotations are used as declared:
functions refer to global variables and to variables of their own, calls fit functions that have been
begun, and no annotation contradicts the form of its node. It is disciplined if moreover every
operand leaves the value that its instruction takes: the code of a list leaves the values of all its
members, so that an operand may leave more than one value, or none. Both conditions can be decided. -/

namespace PatchCompiler

/-! ## Surroundings -/

/-- What surrounds an expression of a program. -/
structure Setting where
  /-- What names stand for. -/
  env : Env
  /-- Global variables of the program. -/
  globals : List (String × ValType)
  /-- Parameters and local variables that the running function binds. -/
  locals : List (String × ValType)
  /-- Functions of the program. -/
  functions : List Outline
  /-- Whether the program holds an array literal. -/
  memory : Bool

namespace Setting

/-- The surroundings inside a block. -/
def enter (w : Setting) (frame : Frame) : Setting := { w with env := w.env.enter frame }

/-- The surroundings inside a function. -/
def inside (w : Setting) (params : List String) (frame : Frame) (prologue : Option (Expr Frame))
    (body : Expr Frame) : Setting :=
  { w with
    env := w.env.enter frame
    locals := frame.paramTypes params
      ++ (frame.scope.variables ++ (Expr.variablesList prologue.toList ++ body.variables)) }

/-- A name stands for a function, or for a number or an array that is a global variable of the
program or a variable of the running function. -/
def Refers (w : Setting) (x : String) : Prop :=
  ∀ v, w.env x = some v → v.kind = .function ∨
    v.kind ≠ .range ∧ (x, v.valType) ∈ if v.isGlobal then w.globals else w.locals

/-- The function of a name. -/
def function? (w : Setting) (name : String) : Option Outline := w.functions.find? (·.name = name)

/-- Whether a function has a result. -/
def hasResult (w : Setting) (name : String) : Bool := (w.function? name).any (·.result.isSome)

/-- A call fits a function of the program: it has an argument for each parameter, and the kind of
the result is recorded. -/
def Fits (w : Setting) (callee : String) (args : Nat) (ty : Option Kind) : Prop :=
  ∃ o ∈ w.functions, o.name = callee ∧ o.params.length = args ∧
    ∀ kind, o.result = some kind → ty = some kind

end Setting

/-- Whether a name is used as declared can be decided. -/
instance (w : Setting) (x : String) : Decidable (w.Refers x) :=
  inferInstanceAs (Decidable (∀ v ∈ w.env x, _))

/-- Whether a call fits can be decided. -/
instance (w : Setting) (callee : String) (args : Nat) (ty : Option Kind) :
    Decidable (w.Fits callee args ty) :=
  inferInstanceAs (Decidable (∃ o ∈ w.functions, o.name = callee ∧ o.params.length = args ∧
    ∀ kind ∈ o.result, ty = some kind))

namespace Expr

/-- Names of the functions that an expression defines. -/
def defines (env : Env) (e : Expr Frame) : List String :=
  (e.outlines env false none).map Outline.name

/-- The same for an expression that may be missing. -/
def definesOption (env : Env) : Option (Expr Frame) → List String
  | none => []
  | some e => e.defines env

/-- The name that an expression is. -/
def ident? : Expr Frame → Option String
  | .mk (.ident x) _ _ => some x
  | _ => none

/-- The ends of a range, in the order they are compiled. -/
def ends : Expr Frame → List (Expr Frame)
  | .mk (.range start stop) _ _ => stop.toList ++ start.toList
  | _ => []

/-- The array and the index of an element, in the order they are compiled. -/
def parts : Expr Frame → List (Expr Frame)
  | .mk (.index array index) _ _ => array :: index.toList
  | .mk (.field object _) _ _ => [object]
  | _ => []

end Expr

/-! ## Regular expressions -/

/-- Whether a node is a call. -/
def Node.isCall : Node Frame → Bool
  | .call .. => true
  | _ => false

/-- The kind recorded for a node other than a call is the one that its form implies. -/
def Node.Annotated (env : Env) (node : Node Frame) (ty : Option Kind) (span : Span) : Prop :=
  node.isCall = false → ∀ kind, ty = some kind → (Expr.mk node none span).kind env = some kind

/-- Whether an annotation agrees with its node can be decided. -/
instance (env : Env) (node : Node Frame) (ty : Option Kind) (span : Span) :
    Decidable (node.Annotated env ty span) :=
  inferInstanceAs (Decidable (_ → ∀ kind ∈ ty, _ = some kind))

mutual

/-- Names, calls and annotations of an expression are used as declared, where the functions of the
names `known` have been begun. The name is given to the expression if it is a function definition. -/
def Expr.Regular (w : Setting) (known : List String) (name : Option String) : Expr Frame → Prop
  | .mk node ty span => node.Annotated w.env ty span ∧ node.Regular w known name ty

/-- Names, calls and annotations of a node are used as declared. -/
def Node.Regular (w : Setting) (known : List String) (name : Option String) (ty : Option Kind) :
    Node Frame → Prop
  | .statements items => Expr.RegularList w known items
  | .sequence items => Expr.RegularList w known items
  | .floatLit _ => True
  | .intLit _ => True
  | .ident x => w.Refers x
  | .function params _ prologue body frame =>
    Expr.RegularOption (w.inside params frame prologue body) (name.toList ++ known) prologue ∧
      body.Regular (w.inside params frame prologue body)
        ((Expr.outlinesOption (w.env.enter frame) false prologue).map Outline.name
          ++ (name.toList ++ known)) none
  | .block body frame => body.Regular (w.enter frame) known none
  | .call callee args =>
    callee ∈ known ∧ w.Fits callee args.length ty ∧ Expr.RegularList w known args
  | .neg operand => operand.Regular w known none
  | .binary _ left right =>
    left.Regular w known none ∧ right.Regular w (left.defines w.env ++ known) none
  | .compare _ left right =>
    left.Regular w known none ∧ right.Regular w (left.defines w.env ++ known) none
  | .step _ target => target.Regular w known none
  | .compound _ target value =>
    target.Regular w known none ∧ value.Regular w (target.defines w.env ++ known) none
  | .clamp value range =>
    value.Regular w known none ∧ range.Regular w (value.defines w.env ++ known) none
  | .range start stop =>
    Expr.RegularOption w known stop ∧
      Expr.RegularOption w (Expr.definesOption w.env stop ++ known) start
  | .array members => Expr.RegularList w known members
  | .index array index =>
    array.Regular w known none ∧ Expr.RegularOption w (array.defines w.env ++ known) index
  | .field object _ => object.Regular w known none
  | .assign target value =>
    value.Regular w known (if value.isFunction then target.ident? else none) ∧
      target.Regular w (value.defines w.env ++ known) none
  | .loop cond body =>
    cond.Regular w known none ∧ body.Regular w (cond.defines w.env ++ known) none

/-- The same for a list of expressions, which are compiled in turn. -/
def Expr.RegularList (w : Setting) (known : List String) : List (Expr Frame) → Prop
  | [] => True
  | e :: rest => e.Regular w known none ∧ Expr.RegularList w (e.defines w.env ++ known) rest

/-- The same for an expression that may be missing. -/
def Expr.RegularOption (w : Setting) (known : List String) : Option (Expr Frame) → Prop
  | none => True
  | some e => e.Regular w known none

end

/-! ## What expressions leave on the stack -/

/-- What the code of an expression leaves on the stack: a number of values that nothing takes, and on
top of them the value of the expression if it has one. -/
structure Leaving where
  /-- How many values nothing takes. -/
  beneath : Nat
  /-- Whether there is a value of the expression. -/
  value : Bool
  deriving DecidableEq, Repr

/-- Number of all values that are left. -/
def Leaving.count (l : Leaving) : Nat := l.beneath + l.value.toNat

/-- A single value. -/
def Leaving.single : Leaving := ⟨0, true⟩

/-- A single value is the value of an expression. -/
theorem Leaving.value_of_single {l : Leaving} (h : l = .single) : l.value = true := by
  rw [h]
  rfl

/-- Nothing at all. -/
def Leaving.nothing : Leaving := ⟨0, false⟩

mutual

/-- What the code of an expression leaves on the stack. A list leaves what each of its members leaves,
and its value is that of the last one. What the first operand of an instruction leaves beneath its
value stays there. -/
def Expr.leaves (w : Setting) : Expr Frame → Leaving
  | .mk (.statements items) _ _ => Expr.leavesList w items
  | .mk (.sequence items) _ _ => Expr.leavesList w items
  | .mk (.floatLit _) _ _ => .single
  | .mk (.intLit _) _ _ => .single
  | .mk (.ident x) _ _ => ⟨0, (w.env x).any (·.kind ≠ .function)⟩
  | .mk (.function ..) _ _ => .nothing
  | .mk (.block body frame) _ _ => body.leaves (w.enter frame)
  | .mk (.call callee args) _ _ => ⟨Expr.beneathFirst w args, w.hasResult callee⟩
  | .mk (.neg operand) _ _ => ⟨(operand.leaves w).beneath, true⟩
  | .mk (.binary _ left _) _ _ => ⟨(left.leaves w).beneath, true⟩
  | .mk (.compare _ left _) _ _ => ⟨(left.leaves w).beneath, true⟩
  | .mk (.step ..) _ _ => .single
  | .mk (.compound ..) _ _ => .single
  | .mk (.clamp value _) _ _ => ⟨(value.leaves w).beneath, true⟩
  | .mk (.range ..) _ _ => .nothing
  | .mk (.array _) _ _ => .single
  | .mk (.index array none) _ _ => ⟨(array.leaves w).beneath, true⟩
  | .mk (.index _ (some _)) _ _ => .nothing
  | .mk (.field ..) _ _ => .nothing
  | .mk (.assign (.mk (.ident _) _ _) value) _ _ =>
    if value.isFunction then .nothing else ⟨(value.leaves w).beneath, true⟩
  | .mk (.assign ..) _ _ => .nothing
  | .mk (.loop ..) _ _ => .nothing

/-- What the code of a list of expressions leaves on the stack. -/
def Expr.leavesList (w : Setting) : List (Expr Frame) → Leaving
  | [] => .nothing
  | [e] => e.leaves w
  | e :: next :: rest =>
    ⟨(e.leaves w).count + (Expr.leavesList w (next :: rest)).beneath,
      (Expr.leavesList w (next :: rest)).value⟩

/-- How many values the first expression of a list leaves beneath its value. -/
def Expr.beneathFirst (w : Setting) : List (Expr Frame) → Nat
  | [] => 0
  | e :: _ => (e.leaves w).beneath

end

/-! ## Disciplined expressions -/

/-- Operands of an instruction: each of them leaves a value, and only the first one may leave others
beneath it. -/
def Expr.Operands (w : Setting) : List (Expr Frame) → Prop
  | [] => True
  | e :: rest => (e.leaves w).value = true ∧ ∀ other ∈ rest, other.leaves w = .single

mutual

/-- Every operand in an expression leaves the value that its instruction takes, functions with a result
leave it, and lengths and elements are used only where there is memory. -/
def Expr.Disciplined (w : Setting) : Expr Frame → Prop
  | .mk (.statements items) _ _ => Expr.DisciplinedList w items
  | .mk (.sequence items) _ _ => Expr.DisciplinedList w items
  | .mk (.floatLit _) _ _ => True
  | .mk (.intLit _) _ _ => True
  | .mk (.ident _) _ _ => True
  | .mk (.function params result prologue body frame) _ _ =>
    Expr.DisciplinedOption (w.inside params frame prologue body) prologue ∧
      body.Disciplined (w.inside params frame prologue body) ∧
      (result.isSome = true → (body.leaves (w.inside params frame prologue body)).value = true)
  | .mk (.block body frame) _ _ => body.Disciplined (w.enter frame)
  | .mk (.call _ args) _ _ => Expr.DisciplinedList w args ∧ Expr.Operands w args
  -- a number other than a decimal one is subtracted from zero, so that it is a second operand
  | .mk (.neg operand) _ _ =>
    operand.Disciplined w ∧ (operand.leaves w).value = true ∧
      (operand.kind w.env ≠ some .float → (operand.leaves w).beneath = 0)
  | .mk (.binary _ left right) _ _ =>
    left.Disciplined w ∧ right.Disciplined w ∧ Expr.Operands w [left, right]
  | .mk (.compare _ left right) _ _ =>
    left.Disciplined w ∧ right.Disciplined w ∧ Expr.Operands w [left, right]
  | .mk (.step ..) _ _ => True
  | .mk (.compound _ _ value) _ _ => value.Disciplined w ∧ value.leaves w = .single
  | .mk (.clamp value range) _ _ =>
    value.Disciplined w ∧ range.Disciplined w ∧ Expr.Operands w (value :: range.ends)
  | .mk (.range start stop) _ _ =>
    Expr.DisciplinedOption w stop ∧ Expr.DisciplinedOption w start
  | .mk (.array members) _ _ =>
    Expr.DisciplinedList w members ∧
      ∀ e ∈ members, e.kind w.env ≠ some .range → e.leaves w = .single
  | .mk (.index array index) _ _ =>
    w.memory = true ∧ array.Disciplined w ∧ Expr.DisciplinedOption w index ∧
      (array.leaves w).value = true
  | .mk (.field object _) _ _ => w.memory = true ∧ object.Disciplined w
  -- the address and the length of an array both come from its code, with the value after them
  | .mk (.assign target value) _ _ =>
    target.Disciplined w ∧ value.Disciplined w ∧
      (value.isFunction = false → (value.leaves w).value = true) ∧
      (target.parts ≠ [] → ∀ e ∈ value :: target.parts, e.leaves w = .single)
  | .mk (.loop cond body) _ _ =>
    cond.Disciplined w ∧ body.Disciplined w ∧ cond.leaves w = .single

/-- The same for a list of expressions. -/
def Expr.DisciplinedList (w : Setting) : List (Expr Frame) → Prop
  | [] => True
  | e :: rest => e.Disciplined w ∧ Expr.DisciplinedList w rest

/-- The same for an expression that may be missing. -/
def Expr.DisciplinedOption (w : Setting) : Option (Expr Frame) → Prop
  | none => True
  | some e => e.Disciplined w

end

/-! ## Deciding the conditions -/

mutual

/-- Whether an expression is regular. -/
def Expr.decRegular (w : Setting) (known : List String) (name : Option String) :
    (e : Expr Frame) → Decidable (e.Regular w known name)
  | .mk node ty _ => @instDecidableAnd _ _ _ (node.decRegular w known name ty)

/-- Whether a node is regular. -/
def Node.decRegular (w : Setting) (known : List String) (name : Option String) (ty : Option Kind) :
    (node : Node Frame) → Decidable (node.Regular w known name ty)
  | .statements items => Expr.decRegularList w known items
  | .sequence items => Expr.decRegularList w known items
  | .floatLit _ => .isTrue trivial
  | .intLit _ => .isTrue trivial
  | .ident x => inferInstanceAs (Decidable (w.Refers x))
  | .function _ _ prologue body _ =>
    @instDecidableAnd _ _ (Expr.decRegularOption _ _ prologue) (body.decRegular _ _ _)
  | .block body frame => body.decRegular (w.enter frame) known none
  | .call _ args =>
    @instDecidableAnd _ _ _ (@instDecidableAnd _ _ _ (Expr.decRegularList w known args))
  | .neg operand => operand.decRegular w known none
  | .binary _ left right => @instDecidableAnd _ _ (left.decRegular _ _ _) (right.decRegular _ _ _)
  | .compare _ left right => @instDecidableAnd _ _ (left.decRegular _ _ _) (right.decRegular _ _ _)
  | .step _ target => target.decRegular w known none
  | .compound _ target value =>
    @instDecidableAnd _ _ (target.decRegular _ _ _) (value.decRegular _ _ _)
  | .clamp value range => @instDecidableAnd _ _ (value.decRegular _ _ _) (range.decRegular _ _ _)
  | .range start stop =>
    @instDecidableAnd _ _ (Expr.decRegularOption _ _ stop) (Expr.decRegularOption _ _ start)
  | .array members => Expr.decRegularList w known members
  | .index array index =>
    @instDecidableAnd _ _ (array.decRegular _ _ _) (Expr.decRegularOption _ _ index)
  | .field object _ => object.decRegular w known none
  | .assign target value =>
    @instDecidableAnd _ _ (value.decRegular _ _ _) (target.decRegular _ _ _)
  | .loop cond body => @instDecidableAnd _ _ (cond.decRegular _ _ _) (body.decRegular _ _ _)

/-- Whether a list of expressions is regular. -/
def Expr.decRegularList (w : Setting) (known : List String) :
    (es : List (Expr Frame)) → Decidable (Expr.RegularList w known es)
  | [] => .isTrue trivial
  | e :: rest => @instDecidableAnd _ _ (e.decRegular _ _ _) (Expr.decRegularList _ _ rest)

/-- Whether an expression that may be missing is regular. -/
def Expr.decRegularOption (w : Setting) (known : List String) :
    (e : Option (Expr Frame)) → Decidable (Expr.RegularOption w known e)
  | none => .isTrue trivial
  | some e => e.decRegular w known none

end

/-- Whether operands leave single values can be decided. -/
instance (w : Setting) (es : List (Expr Frame)) : Decidable (Expr.Operands w es) :=
  match es with
  | [] => .isTrue trivial
  | _ :: _ => inferInstanceAs (Decidable (_ ∧ _))

mutual

/-- Whether an expression is disciplined. -/
def Expr.decDisciplined (w : Setting) : (e : Expr Frame) → Decidable (e.Disciplined w)
  | .mk (.statements items) _ _ => Expr.decDisciplinedList w items
  | .mk (.sequence items) _ _ => Expr.decDisciplinedList w items
  | .mk (.floatLit _) _ _ => .isTrue trivial
  | .mk (.intLit _) _ _ => .isTrue trivial
  | .mk (.ident _) _ _ => .isTrue trivial
  | .mk (.function _ _ prologue body _) _ _ =>
    @instDecidableAnd _ _ (Expr.decDisciplinedOption _ prologue)
      (@instDecidableAnd _ _ (body.decDisciplined _) _)
  | .mk (.block body frame) _ _ => body.decDisciplined (w.enter frame)
  | .mk (.call _ args) _ _ => @instDecidableAnd _ _ (Expr.decDisciplinedList w args) _
  | .mk (.neg operand) _ _ => @instDecidableAnd _ _ (operand.decDisciplined w) _
  | .mk (.binary _ left right) _ _ =>
    @instDecidableAnd _ _ (left.decDisciplined w) (@instDecidableAnd _ _ (right.decDisciplined w) _)
  | .mk (.compare _ left right) _ _ =>
    @instDecidableAnd _ _ (left.decDisciplined w) (@instDecidableAnd _ _ (right.decDisciplined w) _)
  | .mk (.step ..) _ _ => .isTrue trivial
  | .mk (.compound _ _ value) _ _ => @instDecidableAnd _ _ (value.decDisciplined w) _
  | .mk (.clamp value range) _ _ =>
    @instDecidableAnd _ _ (value.decDisciplined w) (@instDecidableAnd _ _ (range.decDisciplined w) _)
  | .mk (.range start stop) _ _ =>
    @instDecidableAnd _ _ (Expr.decDisciplinedOption w stop) (Expr.decDisciplinedOption w start)
  | .mk (.array members) _ _ => @instDecidableAnd _ _ (Expr.decDisciplinedList w members) _
  | .mk (.index array index) _ _ =>
    @instDecidableAnd _ _ _ (@instDecidableAnd _ _ (array.decDisciplined w)
      (@instDecidableAnd _ _ (Expr.decDisciplinedOption w index) _))
  | .mk (.field object _) _ _ => @instDecidableAnd _ _ _ (object.decDisciplined w)
  | .mk (.assign target value) _ _ =>
    @instDecidableAnd _ _ (target.decDisciplined w) (@instDecidableAnd _ _ (value.decDisciplined w) _)
  | .mk (.loop cond body) _ _ =>
    @instDecidableAnd _ _ (cond.decDisciplined w) (@instDecidableAnd _ _ (body.decDisciplined w) _)

/-- Whether a list of expressions is disciplined. -/
def Expr.decDisciplinedList (w : Setting) :
    (es : List (Expr Frame)) → Decidable (Expr.DisciplinedList w es)
  | [] => .isTrue trivial
  | e :: rest => @instDecidableAnd _ _ (e.decDisciplined w) (Expr.decDisciplinedList w rest)

/-- Whether an expression that may be missing is disciplined. -/
def Expr.decDisciplinedOption (w : Setting) :
    (e : Option (Expr Frame)) → Decidable (Expr.DisciplinedOption w e)
  | none => .isTrue trivial
  | some e => e.decDisciplined w

end

/-! ## Programs -/

namespace Program

/-- The surroundings of the function that runs the top-level statements. -/
def outside (p : Program) : Setting where
  env := fun _ => none
  globals := p.scopes.flatMap fun entry => entry.2.globals
  locals := []
  functions := p.outlines
  memory := !p.literals.isEmpty

/-- The surroundings of the top-level statements of a program. -/
def setting (p : Program) : Setting := p.outside.inside [] ⟨[], p.scope⟩ none (p.body.locate [0])

/-- Names, calls and annotations of a program are used as declared. -/
structure Regular (p : Program) : Prop where
  /-- Every parameter stands for a parameter in the scope of its function. -/
  params : p.BindsParams
  /-- The parameters and local variables of a function have different names. -/
  locals : ∀ o ∈ p.outlines, ((o.params ++ o.bound).map Prod.fst).Nodup
  /-- The global variables have different names. -/
  globals : ((p.scopes.flatMap fun entry => entry.2.globals).map Prod.fst).Nodup
  /-- Every function is defined once, under a name that is not one of the library. -/
  functions : ((p.outlines.filter (!·.again)).map Outline.name
    ++ Snippet.all.map Snippet.name).Nodup
  /-- Functions refer to global variables and to their own, calls fit functions that have been begun,
  and annotations agree with the form of their nodes. -/
  body : (p.body.locate [0]).Regular p.setting [initName] none

/-- What a program exports is there, under different names. The memory is exported too if there is
one. -/
structure ExportsFit (p : Program) : Prop where
  /-- The names differ. -/
  names : ((if p.literals.isEmpty then [] else ["memory"])
    ++ (Export.ofScope p.scope).map Export.name).Nodup
  /-- A function is one that the program defines or one of the library that is asked for, and
  anything else is a global variable. -/
  found : ∀ e ∈ Export.ofScope p.scope, e.name ∈
    if e.isFunction then p.outlines.map Outline.name ++ p.requests.map Snippet.name
    else (p.scopes.flatMap fun entry => entry.2.globals).map Prod.fst

/-- Every operand of a program leaves the value that its instruction takes, and what the program
exports is there. -/
structure Disciplined (p : Program) : Prop where
  /-- No function is defined in the array of an element that is assigned to. -/
  once : ∀ o ∈ p.outlines, o.again = false
  /-- What is exported is there. -/
  exports : p.ExportsFit
  /-- Operands leave values, functions leave their results, and there is memory where it is used. -/
  body : (p.body.locate [0]).Disciplined p.setting

/-- Whether all parameters are bound can be decided. -/
instance (p : Program) : Decidable p.BindsParams :=
  inferInstanceAs (Decidable (∀ entry ∈ p.scopes, ∀ x ∈ entry.1,
    ∃ v ∈ entry.2.find? x, v.storage = .parameter))

/-- Whether a program is regular can be decided. -/
instance (p : Program) : Decidable p.Regular :=
  let _ := (p.body.locate [0]).decRegular p.setting [initName] none
  decidable_of_iff
    (p.BindsParams ∧ _ ∧ _ ∧ _ ∧ (p.body.locate [0]).Regular p.setting [initName] none)
    ⟨fun ⟨hparams, hlocals, hglobals, hfunctions, hbody⟩ =>
        ⟨hparams, hlocals, hglobals, hfunctions, hbody⟩,
      fun h => ⟨h.params, h.locals, h.globals, h.functions, h.body⟩⟩

/-- Whether what a program exports is there can be decided. -/
instance (p : Program) : Decidable p.ExportsFit :=
  decidable_of_iff
    (((if p.literals.isEmpty then [] else ["memory"])
        ++ (Export.ofScope p.scope).map Export.name).Nodup ∧
      ∀ e ∈ Export.ofScope p.scope, e.name ∈
        if e.isFunction then p.outlines.map Outline.name ++ p.requests.map Snippet.name
        else (p.scopes.flatMap fun entry => entry.2.globals).map Prod.fst)
    ⟨fun ⟨hnames, hfound⟩ => ⟨hnames, hfound⟩, fun h => ⟨h.names, h.found⟩⟩

/-- Whether a program is disciplined can be decided. -/
instance (p : Program) : Decidable p.Disciplined :=
  let _ := (p.body.locate [0]).decDisciplined p.setting
  decidable_of_iff (_ ∧ p.ExportsFit ∧ (p.body.locate [0]).Disciplined p.setting)
    ⟨fun ⟨honce, hexports, hbody⟩ => ⟨honce, hexports, hbody⟩,
      fun h => ⟨h.once, h.exports, h.body⟩⟩

end Program

end PatchCompiler
