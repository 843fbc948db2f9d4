import PatchCompiler.Tree.Expr

/-! # Building expressions

Constructors for expressions without a source span. Where the form of a node fixes the kind of its
value, that kind is recorded. -/

namespace PatchCompiler

namespace Expr

variable {σ : Type}

/-- A node without annotation and span. -/
def plain (node : Node σ) : Expr σ := .mk node none .synthetic

/-- Record a kind. -/
def withKind (kind : Kind) : Expr σ → Expr σ
  | .mk node _ span => .mk node (some kind) span

/-- Set the source span. -/
def withSpan (span : Span) : Expr σ → Expr σ
  | .mk node ty _ => .mk node ty span

/-- An integer literal. -/
def int (value : Int32) : Expr σ := (plain (.intLit value)).withKind .int

/-- A decimal literal. -/
def float (value : Binary64) : Expr σ := (plain (.floatLit value)).withKind .float

/-- A range. -/
def range (start stop : Option (Expr σ)) : Expr σ := (plain (.range start stop)).withKind .range

/-- An array literal. -/
def array (members : List (Expr σ)) : Expr σ := (plain (.array members)).withKind .pointer

/-- The length of an array. -/
def length (array : Expr σ) : Expr σ := (plain (.index array none)).withKind .int

/-- A function definition. -/
def function (params : List String) (result : Option Kind) (prologue : Option (Expr σ))
    (body : Expr σ) (scope : σ) : Expr σ :=
  (plain (.function params result prologue body scope)).withKind .function

end Expr

end PatchCompiler
