import PatchCompiler.Tree.Expr

/-! # Scopes with a place in the program

Two scopes of a program may list the same bindings and are still different scopes: each of them
declares variables of its own. `Expr.locate` gives every scope of a tree the path that leads to it,
so that a binding is identified by the path of its scope and its index there. -/

namespace PatchCompiler

/-- Path to a node of a tree, the last step first. -/
abbrev Site := List Nat

/-- A scope and the place it stands at. -/
structure Frame where
  /-- Path to the node that carries the scope. -/
  site : Site
  /-- The scope. -/
  scope : Scope
  deriving DecidableEq, Repr

/-- Identity of a binding: the place of its scope and its index there. -/
structure Slot where
  /-- Place of the scope. -/
  site : Site
  /-- Index of the binding in the scope. -/
  index : Nat
  deriving DecidableEq, Repr

namespace Frame

/-- The variable of a name. -/
def find? (frame : Frame) (name : String) : Option Variable := frame.scope.find? name

/-- Identity of the binding a name refers to. -/
def slot (frame : Frame) (name : String) : Slot :=
  ⟨frame.site, frame.scope.bindings.findIdx (·.name = name)⟩

/-- The bindings of a frame, each with its identity. -/
def slots (frame : Frame) : List (Slot × Binding) :=
  frame.scope.bindings.zipIdx.map fun (binding, index) => (⟨frame.site, index⟩, binding)

end Frame

mutual

/-- Give every scope of an expression at a place the path that leads to it. -/
def Expr.locate (site : Site) : Expr Scope → Expr Frame
  | .mk node ty span => .mk (node.locate site) ty span

/-- Give every scope of a node at a place the path that leads to it. -/
def Node.locate (site : Site) : Node Scope → Node Frame
  | .statements items => .statements (Expr.locateList site 0 items)
  | .sequence items => .sequence (Expr.locateList site 0 items)
  | .floatLit value => .floatLit value
  | .intLit value => .intLit value
  | .ident name => .ident name
  | .function params result prologue body scope =>
    .function params result (Expr.locateOption (0 :: site) prologue) (body.locate (1 :: site))
      ⟨site, scope⟩
  | .block body scope => .block (body.locate (0 :: site)) ⟨site, scope⟩
  | .call callee args => .call callee (Expr.locateList site 0 args)
  | .neg operand => .neg (operand.locate (0 :: site))
  | .binary op left right => .binary op (left.locate (0 :: site)) (right.locate (1 :: site))
  | .compare op left right => .compare op (left.locate (0 :: site)) (right.locate (1 :: site))
  | .step op target => .step op (target.locate (0 :: site))
  | .compound op target value =>
    .compound op (target.locate (0 :: site)) (value.locate (1 :: site))
  | .clamp value range => .clamp (value.locate (0 :: site)) (range.locate (1 :: site))
  | .range start stop =>
    .range (Expr.locateOption (0 :: site) start) (Expr.locateOption (1 :: site) stop)
  | .array members => .array (Expr.locateList site 0 members)
  | .index array index =>
    .index (array.locate (0 :: site)) (Expr.locateOption (1 :: site) index)
  | .field object field => .field (object.locate (0 :: site)) field
  | .assign target value => .assign (target.locate (0 :: site)) (value.locate (1 :: site))
  | .loop cond body => .loop (cond.locate (0 :: site)) (body.locate (1 :: site))

/-- The expressions of a list are the steps `first`, `first + 1`, … from a place. -/
def Expr.locateList (site : Site) (first : Nat) : List (Expr Scope) → List (Expr Frame)
  | [] => []
  | e :: rest => e.locate (first :: site) :: Expr.locateList site (first + 1) rest

/-- An expression that may be missing. -/
def Expr.locateOption (site : Site) : Option (Expr Scope) → Option (Expr Frame)
  | none => none
  | some e => some (e.locate site)

end

end PatchCompiler
