import DialectBridge.Compiler

/-!
# Recorded compilers

A compiler that knows its answers beforehand: a table of texts with the response of a script
runtime to each. Responses come from outside, so they may lack fields, and fields may be null; both
are faults where the field is needed. A text that is not in the table is a breakdown of the runtime.
-/

set_option autoImplicit false

namespace DialectBridge

/-- A field of a response. -/
inductive Field (α : Type) where
  /-- The field is not there. -/
  | missing
  /-- The field is there without a value. -/
  | null
  | value (a : α)
  deriving DecidableEq, Repr

/-- The value of a field, if it has one. -/
def Field.value? {α : Type} : Field α → Option α
  | .value a => some a
  | .missing | .null => none

/-- Where a runtime reports an error; each part may be missing. -/
structure ReportedLocation where
  firstLine : Field Int := .missing
  firstColumn : Field Int := .missing
  lastLine : Field Int := .missing
  lastColumn : Field Int := .missing
  deriving DecidableEq, Repr

/-- An error as a runtime reports it. -/
structure ReportedError where
  message : Option String := none
  location : Field ReportedLocation := .missing
  deriving DecidableEq, Repr

/-- The response of a runtime. -/
structure Response where
  js : Field Text := .missing
  rows : Field (List Mapping) := .missing
  error : Option ReportedError := none
  deriving DecidableEq, Repr

/-- A recorded answer. -/
inductive RecordedAnswer where
  /-- The runtime responded. -/
  | responded (response : Response)
  /-- The runtime broke down. -/
  | brokeDown (message : String)
  deriving DecidableEq, Repr

namespace Response

/-- A field that must be there; it may still be null. -/
def require {α : Type} (name : String) : Field α → Except Fault (Option α)
  | .value a => .ok (some a)
  | .null => .ok none
  | .missing => .error (.missingField name)

/-- A value that must not be null. -/
def present {α : Type} (field : NullField) : Option α → Except Fault α
  | some a => .ok a
  | none => .error (.nullField field)

/-- The line and column at which an error begins. The line is checked before the column is looked
at. -/
def beginning (firstLine firstColumn : Option Int) : Except Fault (Int × Int) := do
  let line ← present .firstLine firstLine
  match firstColumn with
  | some column => return (line, column)
  | none => do
    let _ ← Position.make line 0
    throw (.nullField .firstColumn)

/-- The syntax error of an error report: the location is looked at first. -/
def rejection (e : ReportedError) : Except Fault Rejection := do
  let location ← require "location" e.location
  let message ←
    match e.message with
    | some message => .ok message
    | none => .error (.missingField "message")
  let location ← present .location location
  let firstLine ← require "first_line" location.firstLine
  let firstColumn ← require "first_column" location.firstColumn
  let (line, column) ← beginning firstLine firstColumn
  return .make message line column location.lastLine.value? location.lastColumn.value?

/-- What a response without an error has: text, unless that is null, and a map. -/
def content (r : Response) : Except Fault (Option Text × ColumnMap) := do
  let js ← require "js" r.js
  let rows ← present .rows (← require "rows" r.rows)
  return (js, .ofMappings rows)

/-- The verdict of a response: an error counts before everything else. -/
def verdict (r : Response) : Verdict :=
  match r.error with
  | some e =>
    match rejection e with
    | .ok reason => .rejected reason
    | .error fault => .broken fault
  | none =>
    match r.content with
    | .ok (some js, map) => .compiled js map
    | .ok (none, map) => .textless map
    | .error fault => .broken fault

end Response

/-- The verdict of a recorded answer. -/
def RecordedAnswer.verdict : RecordedAnswer → Verdict
  | .responded response => response.verdict
  | .brokeDown message => .broken (.runtimeFailed message)

/-- The compiler with the given answers; the first entry for a text counts. -/
def recordedCompiler (table : List (Text × RecordedAnswer)) : Compiler := fun t =>
  match table.find? fun entry => entry.1 == t with
  | some entry => entry.2.verdict
  | none => .broken (.runtimeFailed "no recorded answer")

end DialectBridge
