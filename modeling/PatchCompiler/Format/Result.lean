import PatchCompiler.Format.Program
import PatchCompiler.Report.Diagnostic
import PatchCompiler.SourceMap

/-! # Results as JSON

Source maps and reports are handed to hosts as JSON text and can be read back. -/

namespace PatchCompiler

open Json (Value Reader)

/-! ## Source maps -/

/-- Roles by name. -/
def FuncRole.names : List (String × FuncRole) :=
  [FuncRole.init, .function, .stdlib].map fun role => (role.name, role)

/-- An entry of a source map as JSON. -/
def SourceMapEntry.toJson (e : SourceMapEntry) : Value :=
  .object [("func_index", .nat e.funcIndex.toNat), ("func_name", .string e.funcName),
    ("kind", .string e.role.name), ("span", e.span.toJson)]

/-- A source map as JSON. -/
def SourceMap.toJson (map : SourceMap) : Value :=
  .object [("entries", .list (map.entries.map SourceMapEntry.toJson))]

/-- Text of a source map. -/
def SourceMap.encode (map : SourceMap) : String := map.toJson.render

/-- Read an entry of a source map. -/
def readSourceMapEntry (levels : Nat) : Reader SourceMapEntry :=
  Json.record levels "struct SourceMapEntry" ⟨0, "", .init, .synthetic⟩ fun inner _ => [
    Json.field "func_index" .required (fun n e => { e with funcIndex := n }) Json.uint32,
    Json.field "func_name" .required (fun name e => { e with funcName := name }) Json.string,
    Json.field "kind" .required (fun role e => { e with role := role })
      (Json.enumeration inner FuncRole.names),
    Json.field "span" .required (fun span e => { e with span := span }) (readSpan inner)]

/-- Read a source map. -/
def readSourceMap (levels : Nat) : Reader SourceMap :=
  Json.record levels "struct SourceMap" ({} : SourceMap) fun inner _ => [
    Json.field "entries" .required (fun entries _ => ⟨entries⟩)
      (Json.list inner fun inner _ => readSourceMapEntry inner)]

/-- Read the text of a source map. -/
def SourceMap.decode (text : String) : Except Json.DecodeError SourceMap :=
  Json.decode (readSourceMap Json.maxLevels) text

/-! ## Reports -/

/-- Severities by name. -/
def Severity.names : List (String × Severity) :=
  [Severity.error, .warning].map fun severity => (severity.name, severity)

/-- Categories by name. -/
def Category.names : List (String × Category) :=
  [Category.input, .operation, .target, .scope, .module].map fun category =>
    (category.name, category)

/-- A diagnostic as JSON: the members of its span stand among its own, and a missing suggestion is
left out. -/
def Diagnostic.toJson (d : Diagnostic) : Value :=
  .object ([("file", .string d.file), ("code", .nat d.code.number.toNat),
      ("severity", .string d.severity.name), ("category", .string d.category.name),
      ("message", .string d.message), ("line", .nat d.span.line.toNat),
      ("column", .nat d.span.column.toNat), ("end_line", .nat d.span.endLine.toNat),
      ("end_column", .nat d.span.endColumn.toNat), ("source_line", .string d.sourceLine)]
    ++ match d.suggestion with
      | some suggestion => [("suggestion", .string suggestion)]
      | none => [])

/-- A report as JSON. -/
def Report.toJson (report : Report) : Value :=
  .object [("errors", .list (report.errors.map Diagnostic.toJson)),
    ("warnings", .list (report.warnings.map Diagnostic.toJson)),
    ("total_errors", .nat report.totalErrors.toNat),
    ("total_warnings", .nat report.totalWarnings.toNat)]

/-- Text of a report. -/
def Report.encode (report : Report) : String := report.toJson.render

/-- What stands for a diagnostic that has not been read yet. -/
def blankDiagnostic : Diagnostic :=
  ⟨"", ⟨0⟩, .error, .input, "", .synthetic, "", none⟩

/-- Read a diagnostic: its own members and, among them, those of its span. -/
def readDiagnostic (levels : Nat) : Reader Diagnostic :=
  Json.flatRecord levels "struct SoneError" blankDiagnostic
    (fun inner _ => [
      Json.field "file" .required (fun file d => { d with file := file }) Json.string,
      Json.field "code" .required (fun code d => { d with code := ⟨code⟩ }) Json.uint16,
      Json.field "severity" .required (fun severity d => { d with severity := severity })
        (Json.enumeration inner Severity.names),
      Json.field "category" .required (fun category d => { d with category := category })
        (Json.enumeration inner Category.names),
      Json.field "message" .required (fun message d => { d with message := message }) Json.string,
      Json.field "source_line" .required (fun line d => { d with sourceLine := line }) Json.string,
      Json.field "suggestion" .optional (fun suggestion d => { d with suggestion := suggestion })
        (Json.optional Json.string)])
    [Json.flatField "line" true (fun n d => { d with span := { d.span with line := n } })
        Value.toUInt32,
      Json.flatField "column" true (fun n d => { d with span := { d.span with column := n } })
        Value.toUInt32,
      Json.flatField "end_line" true (fun n d => { d with span := { d.span with endLine := n } })
        Value.toUInt32,
      Json.flatField "end_column" true
        (fun n d => { d with span := { d.span with endColumn := n } }) Value.toUInt32]

/-- Read a report. -/
def readReport (levels : Nat) : Reader Report :=
  Json.record levels "struct CompileErrors" ({} : Report) fun inner _ => [
    Json.field "errors" .required (fun errors r => { r with errors := errors })
      (Json.list inner fun inner _ => readDiagnostic inner),
    Json.field "warnings" .required (fun warnings r => { r with warnings := warnings })
      (Json.list inner fun inner _ => readDiagnostic inner),
    Json.field "total_errors" .required (fun n r => { r with totalErrors := n }) Json.count,
    Json.field "total_warnings" .required (fun n r => { r with totalWarnings := n }) Json.count]

/-- Read the text of a report. -/
def Report.decode (text : String) : Except Json.DecodeError Report :=
  Json.decode (readReport Json.maxLevels) text

end PatchCompiler
