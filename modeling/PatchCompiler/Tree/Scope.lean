/-! # Variables and scopes

A scope lists the names a function body or a block introduces, in declaration order. -/

namespace PatchCompiler

/-- What kind of value an expression or a variable has. -/
inductive Kind where
  /-- A decimal number. -/
  | float
  /-- A 32-bit integer. -/
  | int
  /-- A range `min..max`. -/
  | range
  /-- The address of an array. -/
  | pointer
  /-- A function. -/
  | function
  deriving DecidableEq, Repr

namespace Kind

/-- Whether values of the kind are numbers. -/
def isNumeric : Kind → Bool
  | .int | .float => true
  | _ => false

/-- Written name of a kind. -/
def name : Kind → String
  | .float => "float"
  | .int => "int"
  | .range => "range"
  | .pointer => "pointer"
  | .function => "function"

end Kind

/-- Where a variable lives while the program runs. -/
inductive Storage where
  /-- In the module, shared by all functions. -/
  | globalVar
  /-- In one call of its function. -/
  | localVar
  /-- In one call of its function, set by the caller. -/
  | parameter
  deriving DecidableEq, Repr

/-- Written name of a storage class. -/
def Storage.name : Storage → String
  | .globalVar => "global"
  | .localVar => "local"
  | .parameter => "parameter"

/-- What is known of a variable. -/
structure Variable where
  /-- Kind of its values. -/
  kind : Kind
  /-- Where it lives. -/
  storage : Storage
  /-- Whether the module makes it available to its host. -/
  exported : Bool := false
  deriving DecidableEq, Repr

/-- Whether a variable is shared by all functions. -/
def Variable.isGlobal (v : Variable) : Bool := decide (v.storage = .globalVar)

/-- A name together with its variable. -/
structure Binding where
  /-- The name. -/
  name : String
  /-- The variable it stands for. -/
  info : Variable
  deriving DecidableEq, Repr

/-- The names a function body or a block introduces, in declaration order. -/
structure Scope where
  /-- The bindings in declaration order. A name may occur more than once; the first one counts. -/
  bindings : List Binding := []
  deriving DecidableEq, Repr

namespace Scope

/-- The empty scope stands for any other. -/
instance : Inhabited Scope := ⟨{}⟩

/-- Give the first binding of a name a new variable, or add a binding at the end. -/
def insertInto (name : String) (v : Variable) : List Binding → List Binding
  | [] => [⟨name, v⟩]
  | b :: rest => if b.name = name then ⟨name, v⟩ :: rest else b :: insertInto name v rest

/-- Bind a name. A name that is bound already keeps its place and gets the new variable. -/
def insert (scope : Scope) (name : String) (v : Variable) : Scope :=
  ⟨insertInto name v scope.bindings⟩

/-- The variable of a name: that of its first binding. -/
def find? (scope : Scope) (name : String) : Option Variable :=
  (scope.bindings.find? (·.name = name)).map Binding.info

/-- The names in declaration order. -/
def names (scope : Scope) : List String := scope.bindings.map Binding.name

end Scope

end PatchCompiler
