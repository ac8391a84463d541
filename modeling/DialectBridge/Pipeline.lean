import DialectBridge.Cleanup
import DialectBridge.Preparation
import DialectBridge.Recovery

/-!
# From source to generated text

A source is prepared and compiled, with recovery from a syntax error; if that fails it is prepared
forcefully and compiled again. Diagnostics are always those of the first attempt, in the lines of
the source. What compiled is cleaned; if nothing did, the sketch of the source takes its place.
-/

set_option autoImplicit false

namespace DialectBridge

namespace Pipeline

/-- What the compiler says about the terminator behind a dangling dot. -/
def terminatorMessage : String := "unexpected ;"

/-- What is wrong with a dangling dot. -/
def danglingDotMessage : String := "unexpected end of input"

/-- Names the dangling dot that was typed instead of the terminator that was added behind it. -/
def explainDanglingDot (source : Document) (d : Diagnostic) : Diagnostic :=
  let line := source.lineText d.range.start.line
  if d.message == terminatorMessage && Text.endsWith ['.'] line &&
      d.range.start.character == line.length then
    { d with message := danglingDotMessage }
  else d

/-- Lines of a text as the places of a map count them. -/
def numbers (lines : List Nat) : List Int := lines.map Int.ofNat

/-- A diagnostic of the prepared text as one of the source. -/
def toSource (source : Document) (inserted : List Int) (d : Diagnostic) : Except Fault Diagnostic :=
  return explainDanglingDot source (← Cleanup.sourceDiagnostic inserted d)

/-- The outcome of the compilations: the forceful one counts only when the first gave no text, and
even then the diagnostics are those of the first. -/
def compile (compiler : Compiler) (prepared : Text) (uri : String) : Run Event Generated := do
  let first ← Recovery.compile compiler prepared uri
  if first.js.isSome then return first
  else
    .notes ((Preparation.forcefulRemarks prepared uri).map .remark)
    let second ← Recovery.compile compiler (Preparation.prepareForcefully prepared) uri
    if second.js.isSome then
      .note (.remark ("aggressive preprocessing made it compile " ++ uri))
      .ofExcept (second.update fun d => { d with diagnostics := first.diagnostics })
    else return first

/-- The outcome with its diagnostics moved to the source. -/
def locateDiagnostics (source : Document) (inserted : List Int) (g : Generated) :
    Except Fault Generated :=
  match g.diagnostics with
  | some (d :: more) => do
    let moved ← (d :: more).mapM (toSource source inserted)
    g.update fun draft => { draft with diagnostics := some moved }
  | _ => .ok g

/-- What is left to do once compilation is over. -/
def finish (source : Document) (prepared : Prepared) (g : Generated) : Run Event Generated :=
  if g.hasMap then do
    let cleaned ← .ofExcept (Cleanup.clean g (numbers prepared.inserted) (numbers prepared.tweaked))
    .notes ((Cleanup.remarks g source.uri).map .remark)
    return cleaned
  else do
    .note (.remark ("falling back to pseudo compilation " ++ source.uri))
    .ofExcept (g.update fun d => { d with js := some (sketch source.text) })

end Pipeline

/-- What a source becomes. -/
def generate (compiler : Compiler) (source : Document) : Run Event Generated := do
  .notes ((Preparation.prepareRemarks source.text source.uri).map .remark)
  let prepared := Preparation.prepare source.text
  let compiled ← Pipeline.compile compiler prepared.text source.uri
  let inserted := Pipeline.numbers prepared.inserted
  let located ← .ofExcept (Pipeline.locateDiagnostics source inserted compiled)
  Pipeline.finish source prepared located

end DialectBridge
