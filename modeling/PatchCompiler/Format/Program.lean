import PatchCompiler.Json.Flat
import PatchCompiler.Tree.Build

/-! # Programs as JSON

Programs are handed over as JSON text. `Program.toJson` writes every field of a program;
`readProgram` accepts what it writes, and leaves fields with a default optional. -/

namespace PatchCompiler

open Json (Value Reader)

/-! ## Names of alternatives -/

/-- Kinds by name. -/
def Kind.names : List (String × Kind) :=
  [Kind.float, .int, .range, .pointer, .function].map fun kind => (kind.name, kind)

/-- Storage classes by name. -/
def Storage.names : List (String × Storage) :=
  [Storage.globalVar, .localVar, .parameter].map fun storage => (storage.name, storage)

/-- Written name of a binary operator. -/
def BinaryOp.name : BinaryOp → String
  | .add => "add"
  | .sub => "sub"
  | .mul => "mul"
  | .bitOr => "bit_or"

/-- Binary operators by name. -/
def BinaryOp.names : List (String × BinaryOp) :=
  [BinaryOp.add, .sub, .mul, .bitOr].map fun op => (op.name, op)

/-- Written name of a comparison. -/
def CompareOp.name : CompareOp → String
  | .lt => "lt"
  | .le => "le"
  | .gt => "gt"
  | .ge => "ge"
  | .eq => "eq"
  | .ne => "ne"

/-- Comparisons by name. -/
def CompareOp.names : List (String × CompareOp) :=
  [CompareOp.lt, .le, .gt, .ge, .eq, .ne].map fun op => (op.name, op)

/-- Written name of a step. -/
def StepOp.name : StepOp → String
  | .increment => "inc"
  | .decrement => "dec"

/-- Steps by name. -/
def StepOp.names : List (String × StepOp) :=
  [StepOp.increment, .decrement].map fun op => (op.name, op)

/-- Written name of a compound assignment. -/
def CompoundOp.name : CompoundOp → String
  | .addAssign => "add_assign"
  | .subAssign => "sub_assign"

/-- Compound assignments by name. -/
def CompoundOp.names : List (String × CompoundOp) :=
  [CompoundOp.addAssign, .subAssign].map fun op => (op.name, op)

/-- The forms of nodes, without what they carry. -/
inductive NodeForm where
  /-- Statements. -/
  | statements
  /-- A sequence. -/
  | sequence
  /-- A decimal literal. -/
  | floatLit
  /-- An integer literal. -/
  | intLit
  /-- A name. -/
  | ident
  /-- A function definition. -/
  | function
  /-- A block. -/
  | block
  /-- A call. -/
  | call
  /-- A negation. -/
  | neg
  /-- A binary operator. -/
  | binary
  /-- A comparison. -/
  | compare
  /-- A step. -/
  | step
  /-- A compound assignment. -/
  | compound
  /-- A clamp. -/
  | clamp
  /-- A range. -/
  | range
  /-- An array literal. -/
  | array
  /-- An element or the length of an array. -/
  | index
  /-- A field. -/
  | field
  /-- An assignment. -/
  | assign
  /-- A loop. -/
  | loop
  deriving DecidableEq, Repr

namespace NodeForm

/-- All forms. -/
def all : List NodeForm :=
  [.statements, .sequence, .floatLit, .intLit, .ident, .function, .block, .call, .neg, .binary,
    .compare, .step, .compound, .clamp, .range, .array, .index, .field, .assign, .loop]

/-- Written name of a form. -/
def name : NodeForm → String
  | .statements => "statements"
  | .sequence => "sequence"
  | .floatLit => "float_lit"
  | .intLit => "int_lit"
  | .ident => "ident"
  | .function => "func_def"
  | .block => "block"
  | .call => "call"
  | .neg => "neg"
  | .binary => "binary"
  | .compare => "compare"
  | .step => "step"
  | .compound => "compound_assign"
  | .clamp => "clamp"
  | .range => "range"
  | .array => "array_lit"
  | .index => "index"
  | .field => "field"
  | .assign => "assign"
  | .loop => "loop"

/-- Forms by name. -/
def names : List (String × NodeForm) := all.map fun form => (form.name, form)

/-- A node of a form as JSON: an object whose only member has the name of the form. -/
def wrap (form : NodeForm) (data : Value) : Value := .object [(form.name, data)]

/-- Whether what a node of the form carries is a single value. -/
def isSingle : NodeForm → Bool
  | .statements | .sequence | .floatLit | .intLit | .ident | .function | .block | .neg | .array =>
    true
  | _ => false

end NodeForm

/-! ## Writing -/

/-- A span as JSON. -/
def Span.toJson (span : Span) : Value :=
  .object [("line", .nat span.line.toNat), ("column", .nat span.column.toNat),
    ("end_line", .nat span.endLine.toNat), ("end_column", .nat span.endColumn.toNat)]

/-- A kind as JSON. -/
def Kind.toJson (kind : Kind) : Value := .string kind.name

/-- A binding as JSON: the members of its variable stand beside its name. -/
def Binding.toJson (b : Binding) : Value :=
  .object [("name", .string b.name), ("kind", b.info.kind.toJson),
    ("storage", .string b.info.storage.name), ("exported", .bool b.info.exported)]

/-- A scope as JSON. -/
def Scope.toJson (scope : Scope) : Value :=
  .object [("bindings", .list (scope.bindings.map Binding.toJson))]

mutual

/-- An expression as JSON; a missing kind is left out. -/
def Expr.toJson : Expr Scope → Value
  | .mk node ty span =>
    .object (("kind", node.toJson)
      :: ((match ty with
          | some kind => [("ty", kind.toJson)]
          | none => [])
        ++ [("span", span.toJson)]))

/-- A node as JSON. -/
def Node.toJson : Node Scope → Value
  | .statements items => NodeForm.statements.wrap (.list (Expr.listToJson items))
  | .sequence items => NodeForm.sequence.wrap (.list (Expr.listToJson items))
  | .floatLit value => NodeForm.floatLit.wrap (.float value)
  | .intLit value => NodeForm.intLit.wrap (.int value.toInt)
  | .ident name => NodeForm.ident.wrap (.string name)
  | .function params result prologue body scope =>
    NodeForm.function.wrap (.object [("params", .list (params.map Value.string)),
      ("result", .ofOption Kind.toJson result), ("prologue", Expr.optionToJson prologue),
      ("body", body.toJson), ("scope", scope.toJson)])
  | .block body scope =>
    NodeForm.block.wrap (.object [("body", body.toJson), ("scope", scope.toJson)])
  | .call callee args =>
    NodeForm.call.wrap (.object [("callee", .string callee),
      ("args", .list (Expr.listToJson args))])
  | .neg operand => NodeForm.neg.wrap operand.toJson
  | .binary op left right =>
    NodeForm.binary.wrap (.object [("op", .string op.name), ("left", left.toJson),
      ("right", right.toJson)])
  | .compare op left right =>
    NodeForm.compare.wrap (.object [("op", .string op.name), ("left", left.toJson),
      ("right", right.toJson)])
  | .step op target =>
    NodeForm.step.wrap (.object [("op", .string op.name), ("target", target.toJson)])
  | .compound op target value =>
    NodeForm.compound.wrap (.object [("op", .string op.name), ("target", target.toJson),
      ("value", value.toJson)])
  | .clamp value range =>
    NodeForm.clamp.wrap (.object [("value", value.toJson), ("range", range.toJson)])
  | .range start stop =>
    NodeForm.range.wrap (.object [("start", Expr.optionToJson start),
      ("end", Expr.optionToJson stop)])
  | .array members => NodeForm.array.wrap (.list (Expr.listToJson members))
  | .index array index =>
    NodeForm.index.wrap (.object [("array", array.toJson), ("index", Expr.optionToJson index)])
  | .field object field =>
    NodeForm.field.wrap (.object [("object", object.toJson), ("field", .string field)])
  | .assign target value =>
    NodeForm.assign.wrap (.object [("target", target.toJson), ("value", value.toJson)])
  | .loop cond body =>
    NodeForm.loop.wrap (.object [("cond", cond.toJson), ("body", body.toJson)])

/-- The expressions of a list as JSON. -/
def Expr.listToJson : List (Expr Scope) → List Value
  | [] => []
  | e :: rest => e.toJson :: Expr.listToJson rest

/-- An expression that may be missing as JSON. -/
def Expr.optionToJson : Option (Expr Scope) → Value
  | none => .null
  | some e => e.toJson

end

/-- A program as JSON. -/
def Program.toJson (p : Program) : Value :=
  .object [("body", p.body.toJson), ("scope", p.scope.toJson)]

/-- Text of a program. -/
def Program.encode (p : Program) : String := p.toJson.render

/-! ## Reading -/

/-- Read a kind. -/
def readKind (levels : Nat) : Reader Kind := Json.enumeration levels Kind.names

/-- Read a span. -/
def readSpan (levels : Nat) : Reader Span :=
  Json.record levels "struct Span" Span.synthetic fun _ _ => [
    Json.field "line" .required (fun n span => { span with line := n }) Json.uint32,
    Json.field "column" .required (fun n span => { span with column := n }) Json.uint32,
    Json.field "end_line" .required (fun n span => { span with endLine := n }) Json.uint32,
    Json.field "end_column" .required (fun n span => { span with endColumn := n }) Json.uint32]

/-- Read a binding: its name and, beside it, its variable. -/
def readBinding (levels : Nat) : Reader Binding :=
  Json.flatRecord levels "struct Binding" ⟨"", ⟨.float, .globalVar, false⟩⟩
    (fun _ _ => [Json.field "name" .required (fun name b => { b with name := name }) Json.string])
    [Json.flatField "kind" true (fun kind b => { b with info := { b.info with kind := kind } })
        (Value.toEnumeration Kind.names),
      Json.flatField "storage" true
        (fun storage b => { b with info := { b.info with storage := storage } })
        (Value.toEnumeration Storage.names),
      Json.flatField "exported" false
        (fun exported b => { b with info := { b.info with exported := exported } }) Value.toBool]

/-- Read a scope. -/
def readScope (levels : Nat) : Reader Scope :=
  Json.record levels "struct Scope" ({} : Scope) fun inner _ => [
    Json.field "bindings" .defaulted (fun bindings _ => ⟨bindings⟩)
      (Json.list inner fun inner _ => readBinding inner)]

/-- What stands for an expression that has not been read yet. -/
def blankExpr : Expr Scope := .plain (.intLit 0)

/-- A record of two required values, with the name of each and a value that stands for it before it
has been read. -/
def readPair {α β : Type} (levels : Nat) (expected : String) (blank : α × β)
    (first second : String)
    (left : (inner : Nat) → inner < levels → Reader α)
    (right : (inner : Nat) → inner < levels → Reader β) : Reader (α × β) :=
  Json.record levels expected blank fun inner bound => [
    Json.field first .required (fun a pair => (a, pair.2)) (left inner bound),
    Json.field second .required (fun b pair => (pair.1, b)) (right inner bound)]

/-- A record of an operator and two expressions, with the names of the expressions. -/
def readOperation {τ : Type} (levels : Nat) (expected : String) (names : List (String × τ))
    (blank : τ) (first second : String)
    (expr : (inner : Nat) → inner < levels → Reader (Expr Scope)) :
    Reader (τ × Expr Scope × Expr Scope) :=
  Json.record levels expected (blank, blankExpr, blankExpr) fun inner bound => [
    Json.field "op" .required (fun op r => (op, r.2)) (Json.enumeration inner names),
    Json.field first .required (fun e r => (r.1, e, r.2.2)) (expr inner bound),
    Json.field second .required (fun e r => (r.1, r.2.1, e)) (expr inner bound)]

/-- The bare name of a form is no node, since every node carries something. -/
def refuseBare (form : NodeForm) : Reader (Node Scope) :=
  Json.failUnplaced (.invalidType .unitVariant
    (if form.isSingle then "newtype variant" else "struct variant"))

mutual

/-- Read an expression. -/
def readExpr (levels : Nat) : Reader (Expr Scope) :=
  Json.record levels "struct Expr" blankExpr fun inner _ => [
    Json.field "kind" .required (fun node e => .mk node e.ty e.span) (readNode inner),
    Json.field "ty" .defaulted (fun ty e => .mk e.node ty e.span)
      (Json.optional (readKind inner)),
    Json.field "span" .defaulted (fun span e => .mk e.node e.ty span) (readSpan inner)]
termination_by levels
decreasing_by all_goals omega

/-- Read a node. -/
def readNode (levels : Nat) : Reader (Node Scope) :=
  Json.choice levels NodeForm.names refuseBare fun inner _ form =>
    match form with
    | .statements => Node.statements <$> Json.list inner fun inner _ => readExpr inner
    | .sequence => Node.sequence <$> Json.list inner fun inner _ => readExpr inner
    | .floatLit => Node.floatLit <$> Json.float
    | .intLit => Node.intLit <$> Json.int32
    | .ident => Node.ident <$> Json.string
    | .function =>
      (fun r => Node.function r.1 r.2.1 r.2.2.1 r.2.2.2.1 r.2.2.2.2) <$>
        Json.record inner "struct FuncDef"
          (([], none, none, blankExpr, {}) :
            List String × Option Kind × Option (Expr Scope) × Expr Scope × Scope)
          fun inner _ => [
            Json.field "params" .defaulted (fun params r => (params, r.2))
              (Json.list inner fun _ _ => Json.string),
            Json.field "result" .defaulted (fun result r => (r.1, result, r.2.2))
              (Json.optional (readKind inner)),
            Json.field "prologue" .defaulted (fun prologue r => (r.1, r.2.1, prologue, r.2.2.2))
              (Json.optional (readExpr inner)),
            Json.field "body" .required (fun body r => (r.1, r.2.1, r.2.2.1, body, r.2.2.2.2))
              (readExpr inner),
            Json.field "scope" .defaulted (fun scope r => (r.1, r.2.1, r.2.2.1, r.2.2.2.1, scope))
              (readScope inner)]
    | .block =>
      (fun r => Node.block r.1 r.2) <$>
        Json.record inner "struct BlockExpr" (blankExpr, ({} : Scope)) fun inner _ => [
          Json.field "body" .required (fun body r => (body, r.2)) (readExpr inner),
          Json.field "scope" .defaulted (fun scope r => (r.1, scope)) (readScope inner)]
    | .call =>
      (fun r => Node.call r.1 r.2) <$>
        readPair inner "struct variant ExprKind::Call" ("", []) "callee" "args"
          (fun _ _ => Json.string) fun inner _ => Json.list inner fun inner _ => readExpr inner
    | .neg => Node.neg <$> readExpr inner
    | .binary =>
      (fun r => Node.binary r.1 r.2.1 r.2.2) <$>
        readOperation inner "struct variant ExprKind::Binary" BinaryOp.names .add "left" "right"
          fun inner _ => readExpr inner
    | .compare =>
      (fun r => Node.compare r.1 r.2.1 r.2.2) <$>
        readOperation inner "struct variant ExprKind::Compare" CompareOp.names .lt "left" "right"
          fun inner _ => readExpr inner
    | .step =>
      (fun r => Node.step r.1 r.2) <$>
        readPair inner "struct variant ExprKind::Step" (.increment, blankExpr) "op" "target"
          (fun inner _ => Json.enumeration inner StepOp.names) fun inner _ => readExpr inner
    | .compound =>
      (fun r => Node.compound r.1 r.2.1 r.2.2) <$>
        readOperation inner "struct variant ExprKind::CompoundAssign" CompoundOp.names .addAssign
          "target" "value" fun inner _ => readExpr inner
    | .clamp =>
      (fun r => Node.clamp r.1 r.2) <$>
        readPair inner "struct variant ExprKind::Clamp" (blankExpr, blankExpr) "value" "range"
          (fun inner _ => readExpr inner) fun inner _ => readExpr inner
    | .range =>
      (fun r => Node.range r.1 r.2) <$>
        Json.record inner "struct variant ExprKind::Range"
          ((none, none) : Option (Expr Scope) × Option (Expr Scope)) fun inner _ => [
            Json.field "start" .optional (fun start r => (start, r.2))
              (Json.optional (readExpr inner)),
            Json.field "end" .optional (fun stop r => (r.1, stop))
              (Json.optional (readExpr inner))]
    | .array => Node.array <$> Json.list inner fun inner _ => readExpr inner
    | .index =>
      (fun r => Node.index r.1 r.2) <$>
        Json.record inner "struct variant ExprKind::Index"
          ((blankExpr, none) : Expr Scope × Option (Expr Scope)) fun inner _ => [
            Json.field "array" .required (fun array r => (array, r.2)) (readExpr inner),
            Json.field "index" .optional (fun index r => (r.1, index))
              (Json.optional (readExpr inner))]
    | .field =>
      (fun r => Node.field r.1 r.2) <$>
        readPair inner "struct variant ExprKind::Field" (blankExpr, "") "object" "field"
          (fun inner _ => readExpr inner) fun _ _ => Json.string
    | .assign =>
      (fun r => Node.assign r.1 r.2) <$>
        readPair inner "struct variant ExprKind::Assign" (blankExpr, blankExpr) "target" "value"
          (fun inner _ => readExpr inner) fun inner _ => readExpr inner
    | .loop =>
      (fun r => Node.loop r.1 r.2) <$>
        readPair inner "struct variant ExprKind::Loop" (blankExpr, blankExpr) "cond" "body"
          (fun inner _ => readExpr inner) fun inner _ => readExpr inner
termination_by levels
decreasing_by all_goals omega

end

/-- Read a program. -/
def readProgram (levels : Nat) : Reader Program :=
  Json.record levels "struct Program" ⟨blankExpr, {}⟩ fun inner _ => [
    Json.field "body" .required (fun body p => { p with body := body }) (readExpr inner),
    Json.field "scope" .required (fun scope p => { p with scope := scope }) (readScope inner)]

/-- Read the text of a program. -/
def Program.decode (text : String) : Except Json.DecodeError Program :=
  Json.decode (readProgram Json.maxLevels) text

end PatchCompiler
