import PatchCompiler.Proofs.Wasm.Validation

/-! # Effects of code on the stack

The code of an expression never stands behind an instruction that does not go on to the next one, so
that the types of all values on the stack are known when it is checked. On such stacks code is a
partial function on lists of types, its effect. Main statements: the effects of codes that are put
together are those of the parts in turn (`Code.Does`), also for loops, and a function is accepted
exactly if the effects of its parts lead to its result. -/

namespace PatchCompiler

namespace Validation

/-- What something does to the types of the values on the stack, the top first, if it is accepted. -/
abbrev Effect := List ValType → Option (List ValType)

namespace Effect

/-- Nothing changes. -/
def skip : Effect := some

/-- Nothing is accepted. -/
def refuse : Effect := fun _ => none

/-- One effect after another. -/
def andThen (f g : Effect) : Effect := fun types => (f types).bind g

/-- A value is put on the stack. -/
def push (type : ValType) : Effect := fun types => some (type :: types)

/-- Values of types are taken from the stack, the top first. -/
def take : List ValType → Effect
  | [], types => some types
  | type :: rest, found :: types => if found = type then take rest types else none
  | _ :: _, [] => none

/-- Values are taken, and a result is put on the stack. -/
def ofSignature (signature : Signature) : Effect :=
  (take signature.1.reverse).andThen fun types => some (signature.2.toList ++ types)

/-- An instruction on two integers that gives an integer. -/
def ints : Effect := ofSignature ([.i32, .i32], some .i32)

/-- Skipping something first changes nothing. -/
@[simp] theorem skip_andThen (f : Effect) : skip.andThen f = f := rfl

/-- Skipping something last changes nothing. -/
@[simp] theorem andThen_skip (f : Effect) : f.andThen skip = f := by
  funext types
  exact Option.bind_fun_some (f types)

/-- Effects can be grouped in any way. -/
theorem andThen_assoc (f g h : Effect) : (f.andThen g).andThen h = f.andThen (g.andThen h) := by
  funext types
  exact Option.bind_assoc (f types) g h

end Effect

/-- A stack of which all is known. -/
def Stack.known (types : List ValType) : Stack := Stack.empty.push types

/-- A value is taken from a known stack if it has the type that is asked for. -/
theorem Stack.pop_known (type : ValType) (types : List ValType) :
    (known types).pop type = (Effect.take [type] types).map known := by
  cases types with
  | nil => rfl
  | cons found rest =>
    by_cases h : found = type
    · subst h
      rw [known, pop_push, Effect.take, if_pos rfl]
      rfl
    · simp [known, push, pop, popAny, Effect.take, h]

/-- Values are taken from a known stack if they have the types that are asked for. -/
theorem Stack.popAll_known (taken types : List ValType) :
    (known types).popAll taken = (Effect.take taken types).map known := by
  induction taken generalizing types with
  | nil => rfl
  | cons type rest ih =>
    rw [popAll, pop_known]
    cases types with
    | nil => rfl
    | cons found types =>
      by_cases h : found = type
      · simp only [Effect.take, h, if_true]
        exact ih types
      · simp only [Effect.take, h, if_false]
        rfl

end Validation

open Validation

/-! ## Instructions -/

/-- What an instruction does to the stack once its operands are on it. -/
def Op.effect (c : Context) (op : Op) : Effect :=
  match op.signature? c with
  | some signature => .ofSignature signature
  | none => .refuse

/-- Whether an instruction is no block, jump or choice: it has no rule of its own. -/
def Op.isPlain : Op → Bool
  | .select | .branch _ | .ret | .loop _ | .conditional | .thenPart => false
  | _ => true

/-- A plain instruction on a known stack. -/
theorem Op.check_known {c : Context} {op : Op} (h : op.isPlain = true) (types : List ValType) :
    op.check c (.known types) = (op.effect c types).map .known := by
  have hplain : op.check c (.known types) = (op.signature? c).bind fun signature =>
      ((Stack.known types).popAll signature.1.reverse).map (·.push signature.2.toList) := by
    cases op <;> first | rfl | cases h
  rw [hplain, Op.effect]
  cases op.signature? c with
  | none => rfl
  | some signature =>
    obtain ⟨taken, given⟩ := signature
    show ((Stack.known types).popAll taken.reverse).map (·.push given.toList)
      = ((Effect.take taken.reverse types).bind fun types => some (given.toList ++ types)).map
        Stack.known
    rw [Stack.popAll_known]
    cases Effect.take taken.reverse types with
    | none => rfl
    | some rest =>
      show some (Stack.push given.toList (Stack.push rest Stack.empty)) = _
      rw [Stack.push_push]
      rfl

/-- The effect of an instruction whose types are known. -/
theorem Op.effect_of_signature {c : Context} {op : Op} {signature : Signature}
    (h : op.signature? c = some signature) : op.effect c = .ofSignature signature := by
  rw [effect, h]

/-! ## Code that is put together -/

namespace Code

variable {c : Context} {code first second : Code} {operands codes : List Code} {f g : Effect}

/-- On known stacks a code does what an effect says. -/
def Does (c : Context) (code : Code) (f : Effect) : Prop :=
  ∀ types, code.check c (.known types) = (f types).map .known

/-- On known stacks operands do what an effect says. -/
def DoAll (c : Context) (operands : List Code) (f : Effect) : Prop :=
  ∀ types, Instr.checkOperands c operands (.known types) = (f types).map .known

/-- No code does nothing. -/
theorem Does.nil : Does c [] .skip := fun _ => rfl

/-- One code after another. -/
theorem Does.append_code (h : first.Does c f) (h' : second.Does c g) :
    Does c (first ++ second) (f.andThen g) := by
  intro types
  rw [check_append_code, h, Effect.andThen]
  cases f types with
  | none => rfl
  | some rest => exact h' rest

/-- No operands do nothing. -/
theorem DoAll.nil : DoAll c [] .skip := fun _ => rfl

/-- One operand in front of others. -/
theorem DoAll.cons (h : first.Does c f) (h' : DoAll c operands g) :
    DoAll c (first :: operands) (f.andThen g) := by
  intro types
  show (first.check c (.known types)).bind _ = _
  rw [h, Effect.andThen]
  cases f types with
  | none => rfl
  | some rest => exact h' rest

/-- A single operand does what its code does. -/
theorem doAll_singleton : DoAll c [code] f ↔ code.Does c f := by
  have hone : ∀ st, Instr.checkOperands c [code] st = code.check c st := fun st =>
    Option.bind_fun_some _
  simp only [DoAll, Does, hone]

/-- Two operands. -/
theorem DoAll.pair (h : first.Does c f) (h' : second.Does c g) :
    DoAll c [first, second] (f.andThen g) :=
  .cons h (doAll_singleton.2 h')

/-- Codes that stand side by side do what they do as operands. -/
theorem check_join (gap : Gap) (codes : List Code) (st : Stack) :
    (join gap codes).check c st = Instr.checkOperands c codes st := by
  induction codes generalizing st with
  | nil => rfl
  | cons code rest ih =>
    rw [join, check_append]
    exact congrArg _ (funext ih)

/-- Codes that stand side by side do what an effect says if they do so as operands. -/
theorem DoAll.join (h : DoAll c codes f) (gap : Gap) : (Code.join gap codes).Does c f := by
  intro types
  rw [check_join]
  exact h types

/-- Codes that follow each other do what they do as operands. -/
theorem check_flatten (codes : List Code) (st : Stack) :
    check c codes.flatten st = Instr.checkOperands c codes st := by
  induction codes generalizing st with
  | nil => rfl
  | cons code rest ih =>
    rw [List.flatten_cons, check_append_code]
    exact congrArg _ (funext ih)

/-- Codes that follow each other do what an effect says if they do so as operands. -/
theorem DoAll.flatten (h : DoAll c codes f) : Does c codes.flatten f := by
  intro types
  rw [check_flatten]
  exact h types

/-- Operands in front of others. -/
theorem DoAll.append (h : DoAll c operands f) (h' : DoAll c codes g) :
    DoAll c (operands ++ codes) (f.andThen g) := by
  intro types
  rw [← check_flatten, List.flatten_append, check_append_code, check_flatten, h, Effect.andThen]
  cases f types with
  | none => rfl
  | some rest => exact (check_flatten codes _).trans (h' rest)

/-- Operands without code do nothing. -/
theorem checkOperands_filter (codes : List Code) (st : Stack) :
    Instr.checkOperands c (codes.filter (!·.isEmpty)) st = Instr.checkOperands c codes st := by
  induction codes generalizing st with
  | nil => rfl
  | cons code rest ih =>
    cases code with
    | nil => exact ih st
    | cons i code => exact congrArg _ (funext ih)

/-- A plain instruction does what its operands do, and then what it does itself. -/
theorem Does.plain {op : Op} (hop : op.isPlain = true) (h : DoAll c operands f) :
    (Code.one op operands).Does c (f.andThen (op.effect c)) := by
  intro types
  have hnode : Instr.check c (.node op operands) (.known types)
      = (Instr.checkOperands c operands (.known types)).bind (op.check c) := by
    cases op <;> first | rfl | cases hop
  show (Instr.check c (.node op operands) (.known types)).bind some = _
  rw [Option.bind_fun_some, hnode, h, Effect.andThen]
  cases f types with
  | none => rfl
  | some rest => exact Op.check_known hop rest

/-- An instruction whose types are known. -/
theorem Does.one {op : Op} {signature : Signature} (hop : op.signature? c = some signature)
    (h : DoAll c operands f) : (Code.one op operands).Does c (f.andThen (.ofSignature signature)) := by
  have hplain : op.isPlain = true := by
    cases op <;> first | rfl | cases hop
  rw [← Op.effect_of_signature hop]
  exact .plain hplain h

/-- An instruction without operands. -/
theorem Does.constant {op : Op} {type : ValType} (hop : op.signature? c = some ([], some type)) :
    (Code.one op []).Does c (.push type) := .one hop .nil

/-- An integer constant. -/
theorem Does.int (value : Int32) : (Code.int value).Does c (.push .i32) := .constant rfl

/-- A floating-point constant. -/
theorem Does.float (value : Binary64) : (Code.float value).Does c (.push .f64) := .constant rfl

end Code

/-- What a conversion does to the stack. -/
def Coercion.effect : Coercion → Effect
  | .keep => .skip
  | .convert => .ofSignature ([.i32], some .f64)
  | .truncate => .ofSignature ([.f64], some .i32)

namespace Code

variable {c : Context} {code test content : Code} {f g : Effect}

/-- The value of a code is converted. -/
theorem Does.apply (h : code.Does c f) (coercion : Coercion) :
    (coercion.apply code).Does c (f.andThen coercion.effect) := by
  cases coercion with
  | keep =>
    rw [Coercion.effect, Effect.andThen_skip]
    exact h
  | convert =>
    have hconvert : Op.convert.signature? c = some ([.i32], some .f64) := rfl
    exact .one hconvert (doAll_singleton.2 h)
  | truncate =>
    have htruncate : Op.truncate.signature? c = some ([.f64], some .i32) := rfl
    exact .one htruncate (doAll_singleton.2 h)

end Code

/-- What a loop does: if its test leaves an integer and nothing else, and its body is accepted, the
stack stays as it is. -/
def Validation.Effect.loop (test body : Effect) : Effect := fun types =>
  if test [] = some [.i32] ∧ (body []).isSome then some types else none

namespace Code

variable {c : Context} {code test content : Code} {f g : Effect}

/-- A loop does what its test and its body say. -/
theorem Does.loopOf {label : Label} (htest : test.Does (c.enter label) f)
    (hcontent : content.Does (c.enter label) g) :
    (Emit.loopOf label test content).Does c (.loop f g) := by
  intro types
  have hfirst : test.check (c.enter label) .empty = (f []).map .known := htest []
  -- the jump at the end makes the rest of the block unreachable, so that it may end in any way
  have hagain : (content.append .space (.one (.branch label) [])).check (c.enter label) .empty
      = (g []).map fun _ => .unreachable := by
    have hsecond : content.check (c.enter label) .empty = (g []).map .known := hcontent []
    rw [check_append, hsecond]
    cases g [] with
    | none => rfl
    | some rest =>
      have hlabel : label ∈ (c.enter label).labels := List.mem_cons_self
      show (if label ∈ (c.enter label).labels then some Stack.unreachable else none).bind some = _
      rw [if_pos hlabel]
      rfl
  have hif : (Code.one .conditional
      [test, .one .thenPart [content.append .space (.one (.branch label) [])]]).check
        (c.enter label) .empty = ((f []).bind fun types => (Stack.known types).pop .i32).bind
          fun st => if (g []).isSome then some st else none := by
    rw [check_conditional, hagain, hfirst, Option.bind_map]
    cases g [] <;> rfl
  rw [Emit.loopOf, check_loop, hif, Effect.loop]
  -- the test has to leave an integer, and the block of the loop nothing besides
  rcases hleft : f [] with _ | _ | ⟨_ | _, _ | ⟨next, rest⟩⟩ <;>
    cases g [] <;> simp [Stack.pop, Stack.popAny, Stack.ends, Stack.popAll, Stack.known,
      Stack.push, Stack.empty]

end Code

/-- A function is accepted exactly if its code leads to its result, whatever it leaves beneath it. -/
theorem Func.accepted_iff {i : Interface} {func : Func} {first second : Code} {f g : Effect}
    (hnames : ((func.params ++ func.locals).map Prod.fst).Nodup)
    (hbody : func.body = (Code.join .newline [first, second, .one .ret []]).lead .newline)
    (hfirst : first.Does (func.context i) f) (hsecond : second.Does (func.context i) g) :
    func.Accepted i ↔ ((f.andThen (g.andThen (.take func.result.toList))) []).isSome = true := by
  have hret (types : List ValType) : (Code.one .ret []).check (func.context i) (.known types)
      = (Effect.take func.result.toList types).map fun _ => .unreachable := by
    show (Option.map _ (Stack.popAll func.result.toList _)).bind some = _
    rw [Stack.popAll_known, Option.bind_fun_some, Option.map_map]
    rfl
  have hcheck : func.body.check (func.context i) .empty
      = ((f.andThen (g.andThen (.take func.result.toList))) []).map fun _ => .unreachable := by
    have hstart : first.check (func.context i) .empty = (f []).map .known := hfirst []
    rw [hbody, Code.check_lead, Code.check_join]
    show (first.check _ .empty).bind (fun st => (second.check _ st).bind fun st =>
      ((Code.one .ret []).check _ st).bind some) = _
    rw [hstart, Effect.andThen]
    cases f [] with
    | none => rfl
    | some types =>
      show (second.check _ (.known types)).bind _ = _
      rw [hsecond, Option.bind_some, Effect.andThen]
      cases g types with
      | none => rfl
      | some types =>
        show ((Code.one .ret []).check _ (.known types)).bind some = _
        rw [hret, Option.bind_fun_some]
        rfl
  -- behind the return the stack is loose, so that the block may end
  have hends : Stack.ends func.result .unreachable = true := by
    cases func.result <;> rfl
  have hany : (func.body.check (func.context i) .empty).any (·.ends func.result)
      = ((f.andThen (g.andThen (.take func.result.toList))) []).isSome := by
    rw [hcheck]
    cases (f.andThen (g.andThen (.take func.result.toList))) [] with
    | none => rfl
    | some types => exact hends
  exact ⟨fun h => hany ▸ h.body, fun h => ⟨hnames, hany ▸ h⟩⟩

end PatchCompiler
