import PatchCompiler.Emit.Array

/-! # The code of expressions and programs

`Expr.emit` walks an expression once and gives the code of its value. Functions it meets become
forms of the module. `Program.compile` does so for a whole program: its top-level statements become
the function that the module starts with. -/

namespace PatchCompiler

mutual

/-- The code of an expression. The name is given to the expression if it is a function definition;
a function definition without a name has no code. -/
def Expr.emit : Expr Frame → Option String → Emit Code
  | .mk node _ span, name =>
    match node with
    | .statements items => Emit.sequence .newline (Expr.operands items)
    | .sequence items => Emit.sequence .space (Expr.operands items)
    | .floatLit value => return .float value
    | .intLit value => return .int value
    | .ident name => Emit.ident name span
    | .function params result prologue body frame =>
      match name with
      | none => throw (.unimplemented .bareFunction "->" span)
      | some name => do
        Emit.define ⟨name, params, result, frame, span, .function⟩
          (Expr.operand? prologue) ⟨body, body.emit⟩
        return []
    | .block body frame => Emit.block frame ⟨body, body.emit⟩
    | .call callee args => Emit.call callee (Expr.operands args)
    | .neg operand => Emit.neg ⟨operand, operand.emit⟩
    | .binary op left right =>
      match Emit.binaryInstructions? op with
      | some ops => Emit.pair ops ⟨left, left.emit⟩ ⟨right, right.emit⟩
      | none => throw (.unimplemented .bitwise op.label span)
    | .compare op left right =>
      Emit.pair (Emit.compareInstructions op) ⟨left, left.emit⟩ ⟨right, right.emit⟩
    | .step op target =>
      Emit.compound op.compound target.target ⟨target, target.emit⟩ .one span
    | .compound op target value =>
      Emit.compound op target.target ⟨target, target.emit⟩ ⟨value, value.emit⟩ span
    | .clamp value range =>
      match range with
      | .mk (.range (some low) (some high)) _ _ =>
        Emit.clamp ⟨value, value.emit⟩ ⟨low, low.emit⟩ ⟨high, high.emit⟩
      | .mk (.range _ _) _ rangeSpan => throw (.unimplemented .openClamp ".." rangeSpan)
      | .mk _ _ rangeSpan => throw (.clampTarget (rangeSpan.merge span))
    | .range _ _ => throw (.unknownOperation ".." span)
    | .array members => Emit.array (Expr.operands members) span
    | .index array index =>
      match index with
      | none => Emit.length ⟨array, array.emit⟩ span
      | some _ => throw (.unimplemented .indexedRead "[]" span)
    | .field _ _ => throw (.unknownOperation "." span)
    | .assign target value => Emit.assign target.target ⟨value, value.emit⟩ span
    | .loop cond body => Emit.loop ⟨cond, cond.emit⟩ ⟨body, body.emit⟩

/-- What an expression on the left of an assignment refers to. -/
def Expr.target : Expr Frame → Emit.Target
  | .mk (.ident name) _ span => .name name span
  | .mk (.index array (some index)) _ _ =>
    .part (.element ⟨array, array.emit⟩ ⟨index, index.emit⟩)
  | .mk (.index _ none) _ _ => .part .length
  | .mk (.field object field) _ span => .part (.field ⟨object, object.emit⟩ field span)
  | .mk node _ _ => .other node.label

/-- The expressions of a list, each with the step that gives its code. -/
def Expr.operands : List (Expr Frame) → List Operand
  | [] => []
  | e :: rest => ⟨e, e.emit⟩ :: Expr.operands rest

/-- An expression that may be missing, with the step that gives its code. -/
def Expr.operand? : Option (Expr Frame) → Option Operand
  | none => none
  | some e => some ⟨e, e.emit⟩

end

/-- Write the top-level statements of a program as the function the module starts with. -/
def Program.emit (p : Program) : Emit Unit := do
  modify fun s => s.record (.started p.scope.bindings.length)
  let body := p.body.locate [0]
  Emit.define ⟨initName, [], none, ⟨[], p.scope⟩, p.body.span, .init⟩ none ⟨body, body.emit⟩

/-- The source map of a module: its library functions, then its other functions in order. -/
def State.sourceMap (s : State) : SourceMap :=
  let snippets := s.includes.foldl
    (fun map snippet => map.push snippet.name .stdlib .synthetic) ({} : SourceMap)
  s.functions.foldl (fun map f => map.push f.name f.role f.span) snippets

/-- Assemble the module of a program from what the run gathered. -/
def Emit.assemble (top : Scope) : Emit (Module × SourceMap) := do
  let s ← get
  match s.arena.pages with
  | .error limit => throw (.limitExceeded limit)
  | .ok pages =>
    let m : Module := ⟨pages, s.includes, s.forms, Export.ofScope top⟩
    modify fun s => s.record (.assembled m.formTexts.length s.includes.length s.arena.cursor)
    return (m, s.sourceMap)

/-- Result of compiling a program, and the events of the run. -/
structure Compilation where
  /-- The module and its source map, or why there is none. -/
  outcome : Except Failure (Module × SourceMap)
  /-- Events in the order they happened. -/
  log : List Event

/-- Compile a program into a module. -/
def Program.compile (p : Program) : Compilation :=
  match (do p.emit; Emit.assemble p.scope : Emit (Module × SourceMap)).run {} with
  | .ok result s => ⟨.ok result, s.log⟩
  | .error failure s => ⟨.error failure, s.log⟩

end PatchCompiler
