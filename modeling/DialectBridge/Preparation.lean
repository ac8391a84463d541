import DialectBridge.Preparation.Forceful
import DialectBridge.Preparation.Gentle
import DialectBridge.Preparation.LineStructure

/-!
# Preparing source for the dialect compiler

Preparation makes the gentle edits and then the two changes of the line structure, which it
records: the lines that were inserted, and the empty lines that were marked, both as lines of the
prepared text. Forceful preparation is a second attempt on prepared text.
-/

set_option autoImplicit false

namespace DialectBridge

/-- Source text that is ready for the compiler, and what was done to its lines. -/
structure Prepared where
  text : Text
  /-- Inserted lines, ascending. -/
  inserted : List Nat
  /-- Marked empty lines, ascending. -/
  tweaked : List Nat
  deriving DecidableEq, Repr

namespace Preparation

/-- The lines of a source after the gentle edits. -/
def editedLines (t : Text) : List Text := Text.lines (Edit.applyAll gentleEdits t)

/-- The lines with those above block comments, each with the note whether it was marked. -/
def markedLines (lines : List Text) : List EditedLine := markEmptyLines (insertCommentLines lines)

/-- Prepares a source for the compiler. -/
def prepare (t : Text) : Prepared :=
  let lines := editedLines t
  let marked := markedLines lines
  { text := Text.joinLines (marked.map (·.line))
    inserted := insertedLines lines
    tweaked := changedFrom 0 marked }

/-- The second attempt, on text that is prepared already. -/
def prepareForcefully (t : Text) : Text := Edit.applyAll forcefulEdits t

/-- What preparation has to remark about a source. -/
def prepareRemarks (t : Text) (uri : String) : List String :=
  let prepared := prepare t
  Edit.remarks uri gentleEdits t ++
    List.replicate prepared.inserted.length ("prefix ### with single # line " ++ uri) ++
    List.replicate prepared.tweaked.length
      ("replace indented empty line with " ++ Text.toString Marker.emptyLine.text ++ " " ++ uri)

/-- What forceful preparation has to remark. -/
def forcefulRemarks (t : Text) (uri : String) : List String := Edit.remarks uri forcefulEdits t

end Preparation

end DialectBridge
