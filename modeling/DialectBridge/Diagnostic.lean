import DialectBridge.Position

/-!
# Diagnostics

A diagnostic is a message about a range of the source. Severity, code, origin and tags may be
absent.
-/

set_option autoImplicit false

namespace DialectBridge

/-- How serious a diagnostic is. -/
inductive Severity where
  | error
  | warning
  | information
  | hint
  deriving DecidableEq, Repr

/-- Remarks on the code of a diagnostic. -/
inductive DiagnosticTag where
  | unnecessary
  | deprecated
  deriving DecidableEq, Repr

/-- The code of a diagnostic. -/
inductive DiagnosticCode where
  | number (value : Int)
  | name (value : String)
  deriving DecidableEq, Repr

/-- A message about a range. -/
structure Diagnostic where
  range : Range
  message : String
  severity : Option Severity := none
  code : Option DiagnosticCode := none
  source : Option String := none
  tags : Option (List DiagnosticTag) := none
  deriving DecidableEq, Repr

namespace Severity

/-- The number of a severity in the protocol of editors. -/
def number : Severity → Nat
  | .error => 1
  | .warning => 2
  | .information => 3
  | .hint => 4

/-- The severity with a number. -/
def ofNumber? : Int → Option Severity
  | 1 => some .error
  | 2 => some .warning
  | 3 => some .information
  | 4 => some .hint
  | _ => none

end Severity

namespace DiagnosticTag

/-- The number of a tag in the protocol of editors. -/
def number : DiagnosticTag → Nat
  | .unnecessary => 1
  | .deprecated => 2

/-- The tag with a number. -/
def ofNumber? : Int → Option DiagnosticTag
  | 1 => some .unnecessary
  | 2 => some .deprecated
  | _ => none

end DiagnosticTag

end DialectBridge
