import PatchCompiler.Wasm.Instr

/-! # Modules

A module is a memory declaration if there are arrays, library functions, globals and functions in
the order they were written, exports, and the start declaration. -/

namespace PatchCompiler

/-- A function of a module. -/
structure Func where
  /-- Name of the function. -/
  name : String
  /-- Parameters in call order. -/
  params : List (String × ValType)
  /-- Type of the result, if there is one. -/
  result : Option ValType
  /-- Local variables in declaration order. -/
  locals : List (String × ValType)
  /-- What the function does; the gap in front of its first instruction counts. -/
  body : Code

namespace Wasm

/-- A declaration of a named variable of a type, under a keyword. -/
def declaration (keyword : String) (v : String × ValType) : String :=
  "(" ++ keyword ++ " $" ++ v.1 ++ " " ++ v.2.name ++ ")"

/-- Text of a local variable's declaration. -/
def localText (v : String × ValType) : String := declaration "local" v

/-- Text of a function. -/
def funcText (f : Func) : String :=
  "(func $" ++ f.name
    ++ String.join (f.params.map fun p => " " ++ declaration "param" p)
    ++ (match f.result with
      | some type => " (result " ++ type.name ++ ")"
      | none => "")
    ++ String.join (f.locals.map fun v => "\n  " ++ localText v)
    ++ f.body.render ++ ")"

end Wasm

/-- A function of the library that compiled code may call. -/
inductive Snippet where
  /-- Greater one of two signed integers. -/
  | max
  /-- Lesser one of two signed integers. -/
  | min
  /-- Index of an array element, wrapped around the array's length. -/
  | index
  deriving DecidableEq, Repr

namespace Snippet

/-- All snippets. -/
def all : List Snippet := [.max, .min, .index]

/-- First part of a snippet's name. -/
def library : Snippet → String
  | _ => "util"

/-- Second part of a snippet's name. -/
def member : Snippet → String
  | .max => "i32.smax"
  | .min => "i32.smin"
  | .index => "idx"

/-- Name of a snippet's function. -/
def name (snippet : Snippet) : String := snippet.library ++ "/" ++ snippet.member

/-- The snippet with a two-part name. -/
def find? (library member : String) : Option Snippet :=
  all.find? fun snippet => snippet.library = library && snippet.member = member

/-- Read a parameter. -/
private def param (name : String) : Code := .one (.getLocal name) []

/-- One of the parameters `a` and `b`: the first one if the comparison holds of them. -/
private def choose (op : IntOp) : Code :=
  .one .select [param "a", param "b", .one (.int op) [param "a", param "b"]]

/-- The body of a snippet's function. -/
def body : Snippet → Code
  | .max => choose .gt
  | .min => choose .lt
  | .index =>
    .one (.int .rem)
      [.one (.int .add) [.one (.int .rem) [param "i", param "len"], param "len"], param "len"]

/-- Names of the parameters of a snippet's function. -/
def params : Snippet → List String
  | .max | .min => ["a", "b"]
  | .index => ["i", "len"]

/-- The function of a snippet. -/
def func (snippet : Snippet) : Func :=
  { name := snippet.name
    params := snippet.params.map fun name => (name, .i32)
    result := some .i32
    locals := []
    body := snippet.body.lead .indent }

/-- Text of a snippet's function. -/
def text (snippet : Snippet) : String := Wasm.funcText snippet.func

end Snippet

/-- A top-level form. -/
inductive Form where
  /-- A global variable, zero at the start. -/
  | globalVar (name : String) (type : ValType)
  /-- A function. -/
  | func (f : Func)
  /-- A form given by its text. -/
  | verbatim (text : String)

/-- Text of a top-level form. -/
def Form.text : Form → String
  | .globalVar name type =>
    "(global $" ++ name ++ " (mut " ++ type.name ++ ") (" ++ type.name ++ ".const 0))"
  | .func f => Wasm.funcText f
  | .verbatim text => text

/-- A name the module makes available to its host. -/
structure Export where
  /-- The name. -/
  name : String
  /-- Whether it names a function; otherwise it names a global variable. -/
  isFunction : Bool
  deriving DecidableEq, Repr

namespace Export

/-- The exports of a module's scope, in scope order. -/
def ofScope (scope : Scope) : List Export :=
  (scope.bindings.filter (·.info.exported)).map fun b => ⟨b.name, decide (b.info.kind = .function)⟩

/-- Text of an export. -/
def text (e : Export) : String :=
  "(export \"" ++ e.name ++ "\" (" ++ (if e.isFunction then "func" else "global")
    ++ " $" ++ e.name ++ "))"

end Export

/-- Name of the function that runs the top-level statements. -/
def initName : String := "module/init"

/-- A module. -/
structure Module where
  /-- Number of memory pages, if the module has a memory. -/
  pages : Option UInt32
  /-- Library functions in the order they were first needed. -/
  snippets : List Snippet
  /-- Global variables and functions. -/
  forms : List Form
  /-- Names made available to the host. -/
  exports : List Export

namespace Module

/-- Texts of the forms of a module, in order: memory, library functions, globals and functions,
exports, and the start declaration. -/
def formTexts (m : Module) : List String :=
  (match m.pages with
    | some pages => ["(memory (export \"memory\") " ++ toString pages.toNat ++ ")"]
    | none => [])
    ++ m.snippets.map Snippet.text
    ++ m.forms.map Form.text
    ++ m.exports.map Export.text
    ++ ["(start $" ++ initName ++ ")"]

/-- Text of a module: one form after another, each on lines of its own. -/
def render (m : Module) : String := "\n".intercalate m.formTexts

end Module

end PatchCompiler
