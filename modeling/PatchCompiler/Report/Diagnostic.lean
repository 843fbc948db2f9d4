import PatchCompiler.Emit.Failure

/-! # Diagnostics

A diagnostic tells a host what is wrong with a program and where. A report keeps the first twenty
errors of a run and counts all of them. -/

namespace PatchCompiler

/-- How bad a diagnostic is. -/
inductive Severity where
  /-- The program cannot be compiled. -/
  | error
  /-- The program can be compiled. -/
  | warning
  deriving DecidableEq, Repr

/-- Written name of a severity. -/
def Severity.name : Severity → String
  | .error => "error"
  | .warning => "warning"

/-- What a diagnostic is about. -/
inductive Category where
  /-- The program could not be read. -/
  | input
  /-- A construct has no code. -/
  | operation
  /-- An operator is applied to something it does not work on. -/
  | target
  /-- A name is not bound. -/
  | scope
  /-- The module breaks a limit. -/
  | module
  deriving DecidableEq, Repr

/-- Written name of a category. -/
def Category.name : Category → String
  | .input => "input"
  | .operation => "operation"
  | .target => "target"
  | .scope => "scope"
  | .module => "module"

namespace ErrorCode

/-- The code of a program that could not be read. -/
def malformed : ErrorCode := ⟨100⟩

/-- Codes are grouped by hundreds. -/
def category (code : ErrorCode) : Category :=
  match code.number.toNat / 100 with
  | 1 => .input
  | 2 => .operation
  | 3 => .target
  | 4 => .scope
  | _ => .module

/-- How a code is shown. -/
def render (code : ErrorCode) : String := "E" ++ toString code.number.toNat

end ErrorCode

/-- What is wrong with a program, and where. -/
structure Diagnostic where
  /-- Name of the program's file. -/
  file : String
  /-- Number of the diagnostic. -/
  code : ErrorCode
  /-- How bad it is. -/
  severity : Severity
  /-- What it is about. -/
  category : Category
  /-- What is wrong, in words. -/
  message : String
  /-- Where it is. -/
  span : Span
  /-- The line it is on, if there is one to show. -/
  sourceLine : String
  /-- What could be done about it. -/
  suggestion : Option String
  deriving DecidableEq, Repr

namespace Diagnostic

/-- An error, in the category of its code. -/
def error (file : String) (code : ErrorCode) (message : String) (span : Span)
    (sourceLine : String) (suggestion : Option String) : Diagnostic :=
  { file := file
    code := code
    severity := .error
    category := code.category
    message := message
    span := span
    sourceLine := sourceLine
    suggestion := suggestion }

/-- How a diagnostic is shown. -/
def render (d : Diagnostic) : String :=
  d.span.render ++ ": " ++ d.code.render ++ " [" ++ d.category.name ++ "] " ++ d.message

end Diagnostic

/-- The diagnostics of a run. -/
structure Report where
  /-- Errors that are kept. -/
  errors : List Diagnostic := []
  /-- Warnings. -/
  warnings : List Diagnostic := []
  /-- Number of errors, those not kept included. -/
  totalErrors : UInt64 := 0
  /-- Number of warnings. -/
  totalWarnings : UInt64 := 0
  deriving DecidableEq, Repr

namespace Report

/-- Most errors that are kept. -/
def maxErrors : Nat := 20

/-- Add an error; it is kept while there is room. -/
def addError (report : Report) (d : Diagnostic) : Report :=
  { report with
    errors := if report.errors.length < maxErrors then report.errors ++ [d] else report.errors
    totalErrors := report.totalErrors + 1 }

/-- Add a warning. -/
def addWarning (report : Report) (d : Diagnostic) : Report :=
  { report with
    warnings := report.warnings ++ [d]
    totalWarnings := report.totalWarnings + 1 }

/-- The report of one error. -/
def single (d : Diagnostic) : Report := ({} : Report).addError d

/-- Whether there are errors. -/
def hasErrors (report : Report) : Bool := decide (0 < report.totalErrors)

end Report

end PatchCompiler
