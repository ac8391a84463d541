import DialectBridge.Diagnostic
import DialectBridge.Table
import DialectBridge.Text.Basic

/-!
# Language services

A language service understands generated text only. It is told about the content of its files and
answers requests at offsets of them. What it is told and what it is asked is recorded; what it
answers is a function of the file and the offset.
-/

set_option autoImplicit false

namespace DialectBridge

/-- A stretch of a generated text. -/
structure Span where
  start : Int
  length : Int
  deriving DecidableEq, Repr

/-- The offset behind a span. -/
def Span.stop (s : Span) : Int := s.start + s.length

/-- A completion offered by the service. -/
structure CompletionEntry where
  name : Text
  /-- The number of its kind in the protocol of editors. -/
  kind : Option Int := none
  sortText : Option String := none
  insertText : Option Text := none
  /-- What it replaces, if that is more than the word at the cursor. -/
  span : Option Span := none
  deriving DecidableEq, Repr

/-- What the service has to say about a place. -/
structure QuickInfo where
  text : String
  span : Span
  documentation : String := ""
  deriving DecidableEq, Repr

/-- A span of a file. -/
structure SpanLocation where
  file : String
  span : Span
  deriving DecidableEq, Repr

/-- A diagnostic on generated text. -/
structure ServiceDiagnostic where
  message : String
  span : Span
  code : Int
  severity : Severity := .error
  tags : List DiagnosticTag := []
  deriving DecidableEq, Repr

/-- The answers of a language service. -/
structure LanguageService where
  /-- The content of a file that is known to the service but not generated. -/
  readFile : String → Option Text
  completions : String → Int → List CompletionEntry
  hover : String → Int → Option QuickInfo
  definitions : String → Int → List SpanLocation
  references : String → Int → List SpanLocation
  diagnostics : String → List ServiceDiagnostic

/-- Answers that do not depend on what is asked. -/
structure CannedAnswers where
  files : Table String Text := {}
  completions : List CompletionEntry := []
  hover : Option QuickInfo := none
  definitions : List SpanLocation := []
  references : List SpanLocation := []
  diagnostics : List ServiceDiagnostic := []

/-- The service that gives canned answers. -/
def CannedAnswers.toService (a : CannedAnswers) : LanguageService where
  readFile := a.files.get?
  completions _ _ := a.completions
  hover _ _ := a.hover
  definitions _ _ := a.definitions
  references _ _ := a.references
  diagnostics _ := a.diagnostics

/-- What a service can be asked. -/
inductive RequestKind where
  | completions
  | hover
  | definitions
  | references
  | diagnostics
  deriving DecidableEq, Repr

/-- A request at an offset of a file; diagnostics have none. -/
structure Request where
  kind : RequestKind
  file : String
  offset : Option Int
  deriving DecidableEq, Repr

/-- What a service is told about its files. -/
inductive FileNotice where
  | updated (name : String) (version : Int) (content : Text)
  | removed (name : String)
  deriving DecidableEq, Repr

namespace FileNotice

/-- The files a service holds after a notice. -/
def apply (files : Table String (Text × Int)) : FileNotice → Table String (Text × Int)
  | .updated name version content => files.put name (content, version)
  | .removed name => files.erase name

end FileNotice

end DialectBridge
