import DialectBridge.Generated
import DialectBridge.Run

/-!
# Dialect compilers

A dialect compiler answers a text with generated text and its map, or rejects it with a syntax
error, or breaks down. Only a rejection is something to recover from; a map that comes without text
counts as an answer, of which nothing can be made. Asking a compiler is journalled, and a rejection
becomes a diagnostic.
-/

set_option autoImplicit false

namespace DialectBridge

/-- A syntax error. Lines and columns count from zero, and the last column belongs to it. -/
structure Rejection where
  message : String
  firstLine : Int
  firstColumn : Int
  lastLine : Option Int
  lastColumn : Int
  deriving DecidableEq, Repr

namespace Rejection

/-- A syntax error whose end may be unknown; the last column is then the first one. -/
def make (message : String) (firstLine firstColumn : Int) (lastLine lastColumn : Option Int) :
    Rejection :=
  ⟨message, firstLine, firstColumn, lastLine, lastColumn.getD firstColumn⟩

/-- A syntax error at a single place. -/
def atPlace (message : String) (line column : Int) : Rejection :=
  make message line column none none

/-- The origin named in diagnostics of the dialect compiler. -/
def origin : String := "coffeemap"

/-- The diagnostic of a syntax error, if its places can be addressed. -/
def toDiagnostic (r : Rejection) : Except Fault Diagnostic := do
  let range ← Range.make r.firstLine r.firstColumn (r.lastLine.getD r.firstLine) (r.lastColumn + 1)
  return {
    range, message := r.message, severity := some .error, code := some (.number 0),
    source := some origin, tags := some [] }

/-- A syntax error in one line of text. -/
def display (r : Rejection) : String :=
  let message := Quoted.display r.message
  s!"DialectSyntaxError({message}, L{r.firstLine}:{r.firstColumn})"

end Rejection

/-- The answer of a dialect compiler. -/
inductive Verdict where
  /-- Generated text and its map. -/
  | compiled (js : Text) (map : ColumnMap)
  /-- A map without any text. -/
  | textless (map : ColumnMap)
  /-- A syntax error. -/
  | rejected (reason : Rejection)
  /-- No answer at all. -/
  | broken (fault : Fault)

/-- A dialect compiler. -/
abbrev Compiler := Text → Verdict

/-- What one compilation gave. -/
inductive Attempt where
  | compiled (js : Text) (map : ColumnMap)
  | textless (map : ColumnMap)
  | failed (diagnostic : Diagnostic)

namespace Compiler

/-- What a verdict means for whoever asked. -/
def attempt : Verdict → Except Fault Attempt
  | .compiled js map => .ok (.compiled js map)
  | .textless map => .ok (.textless map)
  | .rejected reason => do return .failed (← reason.toDiagnostic)
  | .broken fault => .error fault

/-- Asks a compiler, once. -/
def ask (compiler : Compiler) (t : Text) : Run Event Attempt :=
  ⟨[.asked t], attempt (compiler t)⟩

end Compiler

end DialectBridge
