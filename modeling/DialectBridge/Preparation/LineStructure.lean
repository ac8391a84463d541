import DialectBridge.Marker
import DialectBridge.Preparation.Edit

/-!
# Changes of the line structure

Two changes that later stages have to know about. A comment line is put above every line that
begins a block comment, so that the compiler keeps the block comment above its statement. An
indented empty line is marked, because the compiler would drop it; it stays empty where the next
line with text is indented deeper, since the mark would then open a block.
-/

set_option autoImplicit false

namespace DialectBridge

namespace Preparation

/-! ## Lines above block comments -/

/-- A line that begins a block comment: three comment signs and not a fourth. -/
def startsBlockComment (line : Text) : Bool :=
  match Text.dropFront? ['#', '#', '#'] (Text.trimLeft line) with
  | some rest => rest.head? != some '#'
  | none => false

/-- The lines with a comment line above every beginning of a block comment. -/
def insertCommentLines (lines : List Text) : List Text :=
  lines.flatMap fun line => if startsBlockComment line then [['#'], line] else [line]

/-- The indices of the inserted lines among all lines, when the first line has the index
`index`. -/
def insertedFrom (index : Nat) : List Text → List Nat
  | [] => []
  | line :: rest =>
    if startsBlockComment line then index :: insertedFrom (index + 2) rest
    else insertedFrom (index + 1) rest

/-- The indices of the inserted lines, in ascending order. -/
def insertedLines (lines : List Text) : List Nat := insertedFrom 0 lines

/-! ## Indented empty lines -/

/-- Nothing but indentation. -/
def isBlankLine (line : Text) : Bool := (Text.body line).all isIndent

/-- Indentation, and nothing else. -/
def isIndentedEmpty (line : Text) : Bool := isBlankLine line && !(Text.body line).isEmpty

/-- How far a line is indented. -/
def indentWidth (line : Text) : Nat := (line.takeWhile isIndent).length

/-- Whether the next line with text is indented deeper than the given width. -/
def opensBlock (width : Nat) (below : List Text) : Bool :=
  (below.find? fun line => !isBlankLine line).any fun line => width < indentWidth line

/-- Marks the indented empty lines. -/
def markEmptyLines : List Text → List EditedLine
  | [] => []
  | line :: rest =>
    (if isIndentedEmpty line && !opensBlock (Text.body line).length rest then
      ⟨Text.body line ++ Marker.emptyLine.text ++ Text.tail line, true⟩
    else .keep line) :: markEmptyLines rest

/-- The indices of changed lines, when the first line has the index `index`. -/
def changedFrom (index : Nat) : List EditedLine → List Nat
  | [] => []
  | edited :: rest =>
    if edited.changed then index :: changedFrom (index + 1) rest else changedFrom (index + 1) rest

end Preparation

end DialectBridge
