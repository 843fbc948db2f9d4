import PatchCompiler.Source.Span

/-! # Source maps

A source map tells for every function of a module which part of the source it comes from. -/

namespace PatchCompiler

/-- What a function of a module is. -/
inductive FuncRole where
  /-- The function that runs the top-level statements. -/
  | init
  /-- A function the program defines. -/
  | function
  /-- A library function. -/
  | stdlib
  deriving DecidableEq, Repr

/-- Written name of a role. -/
def FuncRole.name : FuncRole → String
  | .init => "init"
  | .function => "function"
  | .stdlib => "stdlib"

/-- Where one function comes from. -/
structure SourceMapEntry where
  /-- Index of the function in the module. -/
  funcIndex : UInt32
  /-- Name of the function. -/
  funcName : String
  /-- What the function is. -/
  role : FuncRole
  /-- Where it was defined. -/
  span : Span
  deriving DecidableEq, Repr

/-- Where the functions of a module come from. -/
structure SourceMap where
  /-- The entries, in module order. -/
  entries : List SourceMapEntry := []
  deriving DecidableEq, Repr

namespace SourceMap

/-- Add the next function of the module. -/
def push (map : SourceMap) (name : String) (role : FuncRole) (span : Span) : SourceMap :=
  ⟨map.entries ++ [⟨UInt32.ofNat map.entries.length, name, role, span⟩]⟩

/-- The entry of the function with an index. -/
def findIndex? (map : SourceMap) (index : UInt32) : Option SourceMapEntry :=
  map.entries.find? (·.funcIndex = index)

/-- The first entry of a function with a name. -/
def findName? (map : SourceMap) (name : String) : Option SourceMapEntry :=
  map.entries.find? (·.funcName = name)

end SourceMap

end PatchCompiler
