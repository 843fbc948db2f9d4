import PatchCompiler.Number.Binary64
import PatchCompiler.Source.Span
import PatchCompiler.Tree.Scope

/-! # Analysed programs

Expressions as the analysis of an audio program leaves them: names are resolved through the scopes
that functions and blocks carry, and a node may be annotated with the kind of its value. The type of
scopes is a parameter `σ`, so that a tree can be decorated with more than the plain `Scope`. -/

namespace PatchCompiler

/-- Binary operators on numbers. -/
inductive BinaryOp where
  /-- `a + b` -/
  | add
  /-- `a - b` -/
  | sub
  /-- `a * b` -/
  | mul
  /-- `a | b` -/
  | bitOr
  deriving DecidableEq, Repr

/-- Comparisons of numbers. -/
inductive CompareOp where
  /-- `a < b` -/
  | lt
  /-- `a <= b` -/
  | le
  /-- `a > b` -/
  | gt
  /-- `a >= b` -/
  | ge
  /-- `a == b` -/
  | eq
  /-- `a != b` -/
  | ne
  deriving DecidableEq, Repr

/-- Assignments that combine the old value with another one. -/
inductive CompoundOp where
  /-- `a += b` -/
  | addAssign
  /-- `a -= b` -/
  | subAssign
  deriving DecidableEq, Repr

/-- Assignments that move a number by one. -/
inductive StepOp where
  /-- `a++` -/
  | increment
  /-- `a--` -/
  | decrement
  deriving DecidableEq, Repr

/-- `a += b` is `a = a + b`, and `a -= b` is `a = a - b`. -/
def CompoundOp.binary : CompoundOp → BinaryOp
  | .addAssign => .add
  | .subAssign => .sub

/-- `a++` is `a += 1`, and `a--` is `a -= 1`. -/
def StepOp.compound : StepOp → CompoundOp
  | .increment => .addAssign
  | .decrement => .subAssign

mutual

/-- An expression: a node, the kind that analysis recorded for it, and its source span. -/
inductive Expr (σ : Type) where
  /-- An annotated node. -/
  | mk (node : Node σ) (ty : Option Kind) (span : Span)

/-- The forms of expressions. -/
inductive Node (σ : Type) where
  /-- `a; b; c`: the values of all but the last one are discarded. -/
  | statements (items : List (Expr σ))
  /-- `a, b, c` -/
  | sequence (items : List (Expr σ))
  /-- A decimal literal. -/
  | floatLit (value : Binary64)
  /-- An integer literal. -/
  | intLit (value : Int32)
  /-- A name. -/
  | ident (name : String)
  /-- `(a, b) -> body`, with a declared result kind if it returns a value, and statements to run
  before the body if there are any. -/
  | function (params : List String) (result : Option Kind) (prologue : Option (Expr σ))
      (body : Expr σ) (scope : σ)
  /-- A parenthesised expression with names of its own. -/
  | block (body : Expr σ) (scope : σ)
  /-- `callee(args)` -/
  | call (callee : String) (args : List (Expr σ))
  /-- `-a` -/
  | neg (operand : Expr σ)
  /-- `a + b` and the other binary operators. -/
  | binary (op : BinaryOp) (left right : Expr σ)
  /-- `a < b` and the other comparisons. -/
  | compare (op : CompareOp) (left right : Expr σ)
  /-- `a++` or `a--` -/
  | step (op : StepOp) (target : Expr σ)
  /-- `a += b` or `a -= b` -/
  | compound (op : CompoundOp) (target value : Expr σ)
  /-- `a -< min..max` -/
  | clamp (value range : Expr σ)
  /-- `min..max`, where either end may be missing. -/
  | range (start stop : Option (Expr σ))
  /-- `[a, b, 1..3]` -/
  | array (members : List (Expr σ))
  /-- `a[b]`, or the length `a[]`. -/
  | index (array : Expr σ) (index : Option (Expr σ))
  /-- `a.b` -/
  | field (object : Expr σ) (field : String)
  /-- `a = b` -/
  | assign (target value : Expr σ)
  /-- `cond <| body` -/
  | loop (cond body : Expr σ)

end

namespace Expr

variable {σ : Type}

/-- The node of an expression. -/
def node : Expr σ → Node σ
  | .mk node _ _ => node

/-- The kind recorded by analysis. -/
def ty : Expr σ → Option Kind
  | .mk _ ty _ => ty

/-- The source span of an expression. -/
def span : Expr σ → Span
  | .mk _ _ span => span

end Expr

/-- How a binary operator is shown. -/
def BinaryOp.label : BinaryOp → String
  | .add => "+"
  | .sub => "-"
  | .mul => "*"
  | .bitOr => "|"

/-- How a comparison is shown. -/
def CompareOp.label : CompareOp → String
  | .lt => "<"
  | .le => "<="
  | .gt => ">"
  | .ge => ">="
  | .eq => "=="
  | .ne => "!="

/-- How a compound assignment is shown. -/
def CompoundOp.label : CompoundOp → String
  | .addAssign => "+="
  | .subAssign => "-="

/-- How a step is shown. -/
def StepOp.label : StepOp → String
  | .increment => "++"
  | .decrement => "--"

/-- Short text by which diagnostics refer to a node. -/
def Node.label {σ : Type} : Node σ → String
  | .statements _ => ";"
  | .sequence _ => ","
  | .floatLit _ => "float literal"
  | .intLit _ => "integer literal"
  | .ident _ => "identifier"
  | .function .. => "->"
  | .block .. => "("
  | .call .. => "()"
  | .neg _ => "-"
  | .binary op _ _ => op.label
  | .compare op _ _ => op.label
  | .step op _ => op.label
  | .compound op _ _ => op.label
  | .clamp .. => "-<"
  | .range .. => ".."
  | .array _ => "array literal"
  | .index .. => "[]"
  | .field .. => "."
  | .assign .. => "="
  | .loop .. => "<|"

/-- Short text by which diagnostics refer to an expression. -/
def Expr.label {σ : Type} (e : Expr σ) : String := e.node.label

/-- A complete program: its top-level statements and the names of the module. -/
structure Program where
  /-- The top-level statements. -/
  body : Expr Scope
  /-- The names of the module. -/
  scope : Scope

end PatchCompiler
