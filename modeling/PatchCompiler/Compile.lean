import PatchCompiler.Digest.Sha256
import PatchCompiler.Emit.Program
import PatchCompiler.Format.Result
import PatchCompiler.Source.Text

/-! # From program text to module text

The whole way: the text of a program is read, compiled, and turned into module text, or into a
report of what is wrong with it. If the binary form is asked for, an assembler makes it of the module
text and a validator checks it; both come from outside, and may refuse. -/

namespace PatchCompiler

open Json (Value Reader)

/-- Version of the compiler. -/
def compilerVersion : String := "0.1.1"

/-- What a host can ask for. -/
structure Options where
  /-- Whether the module should be available in binary form. -/
  assemble : Bool := true
  /-- The text the program was written in, to quote from in diagnostics. -/
  source : Option String := none
  deriving DecidableEq, Repr

/-- Read options. -/
def readOptions (levels : Nat) : Reader Options :=
  Json.record levels "struct CompileOptions" ({} : Options) fun _ _ => [
    Json.field "assemble" .defaulted (fun assemble o => { o with assemble := assemble }) Json.bool,
    Json.field "source" .defaulted (fun source o => { o with source := source })
      (Json.optional Json.string)]

/-- Read the text of options. -/
def Options.decode (text : String) : Except Json.DecodeError Options :=
  Json.decode (readOptions Json.maxLevels) text

/-- What compiling a program gives. -/
structure Artifact where
  /-- Module text. -/
  text : String
  /-- The binary form, if it was asked for. -/
  binary : Option (List UInt8)
  /-- Digest of the module text. -/
  hash : String
  /-- Where the functions of the module come from. -/
  sourceMap : SourceMap
  deriving DecidableEq, Repr

/-- The diagnostic of a program text that could not be read. -/
def Diagnostic.ofDecodeError (file text : String) (e : Json.DecodeError) : Diagnostic :=
  .error file .malformed ("malformed program: " ++ e.message)
    (.point (UInt32.ofNat e.line) (UInt32.ofNat e.column)) (Text.lineAt text e.line)
    (some "the input must be an analysed program tree as produced by analysis")

/-- The diagnostic of a program that cannot be compiled. -/
def Diagnostic.ofFailure (file : String) (source : Option SourceText) (failure : Failure) :
    Diagnostic :=
  let line := source.bind fun s => s.line? failure.span.line
  .error file failure.code failure.message failure.span (line.getD "") failure.suggestion?

/-- Why module text has no valid binary form, with the words of the tool that refuses it. -/
inductive AssemblyError where
  /-- The text does not assemble. -/
  | text (reason : String)
  /-- The binary form is not valid. -/
  | invalid (reason : String)
  deriving DecidableEq, Repr

/-- The failure in words. -/
def AssemblyError.message : AssemblyError → String
  | .text reason => "module text does not assemble: " ++ reason
  | .invalid reason => "module fails validation: " ++ reason

/-- Number of the failure's diagnostic. -/
def AssemblyError.code : AssemblyError → ErrorCode
  | .text _ => ⟨500⟩
  | .invalid _ => ⟨501⟩

/-- The diagnostic of module text that has no valid binary form. -/
def Diagnostic.ofAssemblyError (file : String) (e : AssemblyError) : Diagnostic :=
  .error file e.code e.message .synthetic "" none

/-- Read the text of a program; what is wrong with it becomes a report. -/
def parseProgram (text file : String) : Except Report Program :=
  (Program.decode text).mapError fun e => .single (.ofDecodeError file text e)

/-- The tools that make the binary form of module text and check it. -/
structure Assembler where
  /-- Make the binary form. -/
  assemble : String → Except AssemblyError (List UInt8)
  /-- Check the binary form. -/
  validate : List UInt8 → Except AssemblyError Unit

namespace Assembler

/-- Make the binary form of module text and check it. -/
def build (tools : Assembler) (text : String) : Except AssemblyError (List UInt8) := do
  let bytes ← tools.assemble text
  tools.validate bytes
  return bytes

/-- Compile a program. -/
def compileProgram (tools : Assembler) (p : Program) (file : String) (options : Options) :
    Except Report Artifact := do
  let (m, map) ← p.compile.outcome.mapError fun failure =>
    .single (.ofFailure file (options.source.map (SourceText.mk file)) failure)
  let text := m.render
  let binary ← if options.assemble then
      ((tools.build text).map some).mapError fun e => .single (.ofAssemblyError file e)
    else pure none
  return { text := text, binary := binary, hash := sha256 text, sourceMap := map }

/-- Compile the text of a program. -/
def compileText (tools : Assembler) (text file : String) (options : Options) :
    Except Report Artifact := do
  tools.compileProgram (← parseProgram text file) file options

/-- Compile the text of a program with options given as text. -/
def compileWithOptions (tools : Assembler) (text file options : String) :
    Except Report Artifact :=
  match Options.decode options with
  | .ok options => tools.compileText text file options
  | .error e =>
    .error (.single
      (.error file .malformed ("malformed options: " ++ e.message) .synthetic "" none))

/-- Tools that accept every text and give the first eight bytes that all binary modules share: a
mark and the version of the format. -/
def preamble : Assembler where
  assemble _ := .ok [0, 97, 115, 109, 1, 0, 0, 0]
  validate _ := .ok ()

end Assembler

/-- Compile the text of a program, with the beginning of the binary form for the whole. -/
def compileText (text file : String) (options : Options) : Except Report Artifact :=
  Assembler.preamble.compileText text file options

/-- Compile the text of a program with options given as text, with the beginning of the binary form
for the whole. -/
def compileWithOptions (text file options : String) : Except Report Artifact :=
  Assembler.preamble.compileWithOptions text file options

/-- Outcome of a run as JSON. -/
def outcomeToJson : Except Report Artifact → Value
  | .ok artifact =>
    .object [("success", .bool true), ("wat", .string artifact.text),
      ("wasm", .ofOption (fun bytes => .list (bytes.map fun byte => .nat byte.toNat))
        artifact.binary),
      ("module_hash", .string artifact.hash), ("source_map", artifact.sourceMap.toJson),
      ("errors", ({} : Report).toJson), ("compiler_version", .string compilerVersion)]
  | .error report =>
    .object [("success", .bool false), ("wat", .null), ("wasm", .null), ("module_hash", .null),
      ("source_map", .null), ("errors", report.toJson),
      ("compiler_version", .string compilerVersion)]

end PatchCompiler
