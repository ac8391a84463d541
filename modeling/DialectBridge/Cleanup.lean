import DialectBridge.Bisection
import DialectBridge.Cleanup.Declarations
import DialectBridge.Generated
import DialectBridge.Marker
import DialectBridge.Run
import DialectBridge.Text.Identifier

/-!
# Cleaning generated text

Compiled text still carries the residues of markers, and its map still speaks of the lines of the
prepared text. Cleaning replaces the residues, takes back the shifts of inserted lines, and narrows
hoisted declarations. The lines of the generated text stay what they are; only declarations and
marks of empty lines change the length of a line.
-/

set_option autoImplicit false

namespace DialectBridge

namespace Cleanup

/-! ## Methods -/

/-- The text behind an optional front, and the front if it was there. -/
def optionalFront (front t : Text) : Text × Text :=
  match Text.dropFront? front t with
  | some rest => (front, rest)
  | none => ([], t)

/-- A property that is a function becomes a method of the same width. -/
def methodShorthand : ReplacementRule := fun _ t =>
  let name := t.takeWhile isIdentifier
  if name.isEmpty then none
  else
    match Text.dropFront? ": ".toList (t.drop name.length) with
    | none => none
    | some rest =>
      let (async, rest) := optionalFront "async ".toList rest
      match Text.dropFront? "function".toList rest with
      | none => none
      | some rest =>
        let (star, rest) := optionalFront ['*'] rest
        match rest with
        | '(' :: _ =>
          some ⟨name.length + async.length + star.length + 11,
            async ++ star ++ name ++ List.replicate 10 ' ' ++ ['(']⟩
        | _ => none

/-- Generated text with methods in their short form. -/
def preferMethods (js : Text) : Text := Text.scan methodShorthand js

/-! ## Source lines -/

/-- The source line of a line of the prepared text: one less for every line inserted at it or
before it. The inserted lines are in ascending order. -/
def sourceLine (inserted : List Int) (line : Int) : Int := line - Bisection.place inserted line

/-- The source line is the line less the number of lines inserted at it or before it. -/
theorem sourceLine_eq {inserted : List Int} (sorted : inserted.Pairwise (· ≤ ·)) (line : Int) :
    sourceLine inserted line = line - inserted.countP fun i => decide (i ≤ line) := by
  rw [sourceLine, Bisection.place_eq_countP sorted]

/-- A position of the prepared text as a position of the source. -/
def sourcePosition (inserted : List Int) (p : Position) : Except Fault Position :=
  Position.make (sourceLine inserted p.line) p.character

/-- A diagnostic of the prepared text as one of the source. -/
def sourceDiagnostic (inserted : List Int) (d : Diagnostic) : Except Fault Diagnostic :=
  if inserted.isEmpty then .ok d
  else do
    let start ← sourcePosition inserted d.range.start
    let stop ← sourcePosition inserted d.range.stop
    return { d with range := ⟨start, stop⟩ }

/-- The line with a number, where negative numbers count from the end. There is an empty line behind
the end, and none in front of the beginning. -/
def lineAt (lines : List Text) (number : Int) : Except Fault Text :=
  if 0 ≤ number then .ok (lines.getD number.toNat [])
  else if 0 ≤ lines.length + number then .ok (lines.getD (lines.length + number).toNat [])
  else .error .linePastEnd

/-- A mapping of the prepared text as one of the source. A mapping of a marked empty line survives
only where the mark is still to be seen, and then relates the beginnings of the two lines. -/
def sourceMapping? (lines : List Text) (inserted tweaked : List Int) (m : Mapping) :
    Except Fault (Option Mapping) :=
  let shifted (m : Mapping) : Mapping := { m with sourceLine := sourceLine inserted m.sourceLine }
  if tweaked.contains m.sourceLine then do
    let line ← lineAt lines m.outputLine
    return if Marker.emptyLine.foundIn line then
        some (shifted ⟨m.sourceLine, 0, m.outputLine, 0⟩)
      else none
  else .ok (some (shifted m))

/-- The map of the generated lines with the lines of the source. -/
def sourceMap (map : ColumnMap) (lines : List Text) (inserted tweaked : List Int) :
    Except Fault ColumnMap := do
  let kept ← map.mappings.mapM (sourceMapping? lines inserted tweaked)
  return .ofMappings (kept.filterMap id)

/-! ## All of it -/

/-- Generated text with its methods in short form and all residues of fixed width replaced. -/
def replaceResidues (js : Text) : Text :=
  Marker.newProperty.clean (Marker.receiver.clean (preferMethods js))

/-- The generated text after cleaning. -/
def cleanText (js : Text) : Text :=
  Marker.emptyLine.clean
    (Text.joinLines (Declarations.narrowLines (Text.lines (replaceResidues js))))

/-- The map after cleaning. -/
def cleanMap (js : Text) (map : ColumnMap) (inserted tweaked : List Int) :
    Except Fault ColumnMap := do
  let lines := Text.lines (replaceResidues js)
  return Declarations.narrowMap lines (← sourceMap map lines inserted tweaked)

/-- A compiled outcome after cleaning; one without text or map stays as it is. -/
def clean (g : Generated) (inserted tweaked : List Int) : Except Fault Generated :=
  match g.js, g.map with
  | some js, some map => do
    let cleaned ← cleanMap js map inserted tweaked
    g.update fun d =>
      { d with
        js := some (cleanText js)
        map := some cleaned
        fakeLine := d.fakeLine.map (sourceLine inserted) }
  | _, _ => .ok g

/-- What cleaning has to remark. -/
def remarks (g : Generated) (uri : String) : List String :=
  match g.js, g.map with
  | some js, some _ =>
    ((Declarations.narrowings (Text.lines (replaceResidues js))).map fun n =>
      "narrow declaration of " ++ Text.toString n.declaration.name ++ " " ++ uri) ++
    ((Marker.violations (cleanText js) .final).map fun m =>
      m.name ++ " sentinel left in output " ++ uri)
  | _, _ => []

end Cleanup

end DialectBridge
