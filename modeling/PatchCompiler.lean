import PatchCompiler.Source.Span
import PatchCompiler.Source.Text
import PatchCompiler.Number.Shortest
import PatchCompiler.Number.Layout
import PatchCompiler.Number.Numeral
import PatchCompiler.Tree.Scope
import PatchCompiler.Tree.Expr
import PatchCompiler.Tree.Build
import PatchCompiler.Tree.Frame
import PatchCompiler.Wasm.Module
import PatchCompiler.SourceMap
import PatchCompiler.Emit.Arena
import PatchCompiler.Emit.Kind
import PatchCompiler.Emit.Program
import PatchCompiler.Text.Quoted
import PatchCompiler.Json.Text
import PatchCompiler.Json.Number
import PatchCompiler.Json.Flat
import PatchCompiler.Report.Diagnostic
import PatchCompiler.Format.Program
import PatchCompiler.Compile
import PatchCompiler.Proofs.Emission.Derive
import PatchCompiler.Proofs.Emission.Fields
import PatchCompiler.Proofs.Locals.Occurrence
import PatchCompiler.Proofs.Locals.Declaration
import PatchCompiler.Proofs.Locals.Scopes
import PatchCompiler.Proofs.Locals.Outline
import PatchCompiler.Proofs.Locals.Marks
import PatchCompiler.Proofs.Locals.Written
import PatchCompiler.Proofs.Locals.Agreement
import PatchCompiler.Proofs.Locals.Distinct
import PatchCompiler.Proofs.Wasm.Machine
import PatchCompiler.Proofs.Semantics.Arithmetic
import PatchCompiler.Proofs.Semantics.Operands
import PatchCompiler.Proofs.Semantics.Direct
import PatchCompiler.Proofs.Semantics.Simulation
import PatchCompiler.Proofs.Wasm.Validation
import PatchCompiler.Proofs.Emission.Growth
import PatchCompiler.Proofs.Typing.Fragment
import PatchCompiler.Proofs.Typing.Forms
import PatchCompiler.Proofs.Typing.Tasks
import PatchCompiler.Proofs.Typing.Steps
import PatchCompiler.Proofs.Typing.Soundness
import PatchCompiler.Proofs.Emission.Events
import PatchCompiler.Proofs.Memory.Stores
import PatchCompiler.Proofs.Memory.Arrays
import PatchCompiler.Proofs.Emission.Visits
import PatchCompiler.Proofs.Emission.Actions
import PatchCompiler.Proofs.Emission.Once
import PatchCompiler.Proofs.Text.Sexp
import PatchCompiler.Proofs.Text.Render
import PatchCompiler.Proofs.Text.Names
import PatchCompiler.Proofs.Text.Shape
import PatchCompiler.Proofs.Text.Sections
import PatchCompiler.Proofs.Memory.Access
import PatchCompiler.Proofs.Linkage.Library
import PatchCompiler.Proofs.Linkage.SourceMap
import PatchCompiler.Proofs.Json.Scalars
import PatchCompiler.Proofs.Json.Containers
import PatchCompiler.Proofs.Json.Results
import PatchCompiler.Proofs.Format.Encoding
import PatchCompiler.Proofs.Format.Roundtrip
import PatchCompiler.Proofs.Emission.Discipline
import PatchCompiler.Proofs.Emission.Failures
import PatchCompiler.Proofs.Source.Lines
import PatchCompiler.Proofs.Json.Positions
import PatchCompiler.Proofs.Format.Refusal
import PatchCompiler.Proofs.Format.Results
import PatchCompiler.Proofs.Emission.Sugar
import PatchCompiler.Proofs.Emission.Lookahead
import PatchCompiler.Proofs.Memory.Layout
import PatchCompiler.Proofs.Memory.Elements
import PatchCompiler.Proofs.Memory.Allocator
import PatchCompiler.Proofs.Text.Branches
import PatchCompiler.Proofs.Emission.Loops
import PatchCompiler.Proofs.Number.Nearest
import PatchCompiler.Proofs.Number.Shortest
import PatchCompiler.Proofs.Number.Constants
import PatchCompiler.Proofs.Number.Rounding
import PatchCompiler.Proofs.Number.Scaling
import PatchCompiler.Proofs.Json.Floats
import PatchCompiler.Proofs.Format.Literals
import PatchCompiler.Proofs.Source.Extents
import PatchCompiler.Proofs.Source.Spans
import PatchCompiler.Proofs.Emission.Independence
