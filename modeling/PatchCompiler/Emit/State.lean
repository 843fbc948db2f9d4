import PatchCompiler.Emit.Arena
import PatchCompiler.SourceMap
import PatchCompiler.Tree.Frame
import PatchCompiler.Wasm.Module

/-! # The state of a compilation

What one run of the compiler gathers: the forms written so far, the memory handed out, the scopes
that enclose the current expression, and what has already been declared. `Emit` is the type of
its steps: a step changes the state and gives a value or a failure, and what it recorded up
to a failure stays recorded. -/

namespace PatchCompiler

/-- Events recorded while a program is compiled. -/
inductive Event where
  /-- Compilation begins; the program has so many top-level bindings. -/
  | started (bindings : Nat)
  /-- A function with so many parameters is begun. -/
  | function (name : String) (params : Nat)
  /-- An array is laid out. -/
  | array (span : Span) (base count : UInt32)
  /-- A library function is needed for the first time. -/
  | included (snippet : Snippet)
  /-- A top-level form is written. -/
  | form (f : Form)
  /-- The module is complete. -/
  | assembled (forms snippets : Nat) (bytes : UInt32)

namespace Event

/-- Whether an event is a detail of interest only to someone who traces a run. -/
def isDetail : Event → Bool
  | .form _ => true
  | _ => false

/-- The event in words. -/
def message : Event → String
  | .started bindings => "compiling program: " ++ toString bindings ++ " top-level bindings"
  | .function name params => "function $" ++ name ++ " (" ++ toString params ++ " params)"
  | .array span base count =>
    "array at " ++ span.render ++ ": base " ++ toString base.toNat ++ ", " ++ toString count.toNat
      ++ " elements"
  | .included snippet => "including " ++ snippet.name
  | .form f => "form: " ++ f.text
  | .assembled forms snippets bytes =>
    "module assembled: " ++ toString forms ++ " forms, " ++ toString snippets ++ " snippets, "
      ++ toString bytes.toNat ++ " bytes of memory"

end Event

/-- A function that was written, for the source map. -/
structure FuncOrigin where
  /-- Name of the function. -/
  name : String
  /-- What the function is. -/
  role : FuncRole
  /-- Where it was defined. -/
  span : Span
  deriving DecidableEq, Repr

/-- Local variables of a function that are put aside while another one is written. -/
structure Locals where
  /-- Variables in declaration order. -/
  declarations : List (String × ValType) := []
  /-- Names of the variables, the latest first. -/
  names : List String := []

/-- What a run of the compiler has gathered. -/
structure State where
  /-- Library functions in the order they were first needed. -/
  includes : List Snippet := []
  /-- Globals and functions in the order they were written. -/
  forms : List Form := []
  /-- Local variables of the function being written, in declaration order. -/
  locals : List (String × ValType) := []
  /-- Names declared in `locals`, the latest first. -/
  localNames : List String := []
  /-- Memory handed out. -/
  arena : Arena := {}
  /-- Scopes that enclose the current expression, the innermost first. -/
  scopes : List Frame := []
  /-- Bindings that have been declared. -/
  declared : List Slot := []
  /-- Number of loops that enclose the current expression. -/
  loopDepth : UInt32 := 0
  /-- Functions in the order they were written. -/
  functions : List FuncOrigin := []
  /-- Parameter types of the functions begun so far, the latest first. -/
  signatures : List (String × List ValType) := []
  /-- Events in the order they happened. -/
  log : List Event := []

namespace State

/-- Record an event. -/
def record (s : State) (event : Event) : State := { s with log := s.log ++ [event] }

/-! ## Scopes -/

/-- Open a scope. -/
def enter (s : State) (frame : Frame) : State := { s with scopes := frame :: s.scopes }

/-- Close the innermost scope. -/
def leave (s : State) : State := { s with scopes := s.scopes.tail }

/-- The variable of a name, in the innermost scope that binds it. -/
def lookup (s : State) (name : String) : Option Variable := s.scopes.findSome? (·.find? name)

/-! ## Declarations -/

/-- Whether a binding has been declared. -/
def isDeclared (s : State) (slot : Slot) : Bool := s.declared.contains slot

/-- Note that a binding has been declared. -/
def mark (s : State) (slot : Slot) : State :=
  if s.isDeclared slot then s else { s with declared := slot :: s.declared }

/-- Write a top-level form. -/
def pushForm (s : State) (form : Form) : State :=
  let s := s.record (.form form)
  { s with forms := s.forms ++ [form] }

/-- Write a function. -/
def pushFunction (s : State) (origin : FuncOrigin) (f : Func) : State :=
  { s with functions := s.functions ++ [origin] }.pushForm (.func f)

/-- Declare a binding, unless it is a function or has been declared: a global variable becomes a
form of its own, anything else a local variable of the function being written, where a name is
declared once. -/
def declare (s : State) (slot : Slot) (binding : Binding) : State :=
  if binding.info.kind = .function || s.isDeclared slot then s
  else
    let s := s.mark slot
    let type := binding.info.kind.valType
    if binding.info.isGlobal then s.pushForm (.globalVar binding.name type)
    else if s.localNames.contains binding.name then s
    else
      { s with
        localNames := binding.name :: s.localNames
        locals := s.locals ++ [(binding.name, type)] }

/-- Declare the bindings of a scope other than parameters. -/
def declareScope (s : State) (frame : Frame) : State :=
  frame.slots.foldl
    (fun s (slot, binding) =>
      if binding.info.storage = .parameter then s else s.declare slot binding)
    s

/-- Put the local variables and their names aside and start with none. -/
def takeLocals (s : State) : Locals × State :=
  (⟨s.locals, s.localNames⟩, { s with locals := [], localNames := [] })

/-- Bring local variables and their names back; gives the declarations they replace. -/
def restoreLocals (s : State) (saved : Locals) : List (String × ValType) × State :=
  (s.locals, { s with localNames := saved.names, locals := saved.declarations })

/-! ## Functions, library and loops -/

/-- Note the parameter types of a function. -/
def recordSignature (s : State) (name : String) (params : List ValType) : State :=
  { s with signatures := (name, params) :: s.signatures }

/-- Parameter types of a function, if it has been begun. -/
def signature? (s : State) (name : String) : Option (List ValType) := s.signatures.lookup name

/-- Ask for a library function. -/
def require (s : State) (snippet : Snippet) : State :=
  if s.includes.contains snippet then s
  else
    let s := s.record (.included snippet)
    { s with includes := s.includes ++ [snippet] }

/-- Enter a loop. -/
def enterLoop (s : State) : State := { s with loopDepth := s.loopDepth + 1 }

/-- Leave a loop. -/
def exitLoop (s : State) : State := { s with loopDepth := s.loopDepth - 1 }

end State

/-- A step of the compiler. -/
abbrev Emit := EStateM Failure State

namespace Emit

/-- The variable of a name; a name that is not bound is reported at `span`. -/
def resolve (name : String) (span : Span) : Emit Variable := do
  match (← get).lookup name with
  | some v => return v
  | none => throw (.unresolved name span)

/-- A step on memory. -/
def onArena {α : Type} (step : Arena → Except Limit (α × Arena)) : Emit α := do
  match step (← get).arena with
  | .ok (value, arena) =>
    modify fun s => { s with arena := arena }
    return value
  | .error limit => throw (.limitExceeded limit)

/-- Begin an array; gives its address. -/
def openArray : Emit UInt32 := onArena Arena.openArray

/-- Hand out slots. -/
def advance (count : UInt32) : Emit Unit := onArena fun arena => (arena.advance count).map ((), ·)

end Emit

end PatchCompiler
