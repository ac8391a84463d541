import DialectBridge.Bisection
import DialectBridge.Position
import DialectBridge.Text.Identifier

/-!
# Documents

A document is a text with a name, addressed by offset or by position. All addressing goes by the
offsets at which the lines begin; the line of an offset is found among them by halving. Columns do
not reach into a line break: a position behind the end of its line stands for the end, where a
carriage return in front of a line feed counts as part of the break. Positions behind the last line
stand for the end of the text.
-/

set_option autoImplicit false

namespace DialectBridge

/-- The offsets behind the line feeds of a text that begins at an offset. -/
def Text.breaksFrom (offset : Nat) : Text → List Nat
  | [] => []
  | c :: rest =>
    if c = '\n' then (offset + 1) :: breaksFrom (offset + 1) rest else breaksFrom (offset + 1) rest

/-- A named text. -/
structure Document where
  text : Text
  uri : String := ""
  deriving DecidableEq, Repr

namespace Document

variable (d : Document)

/-- The lines between line feeds, with their carriage returns. -/
def lines : List Text := Text.lines d.text

/-! ## Lines by their offsets -/

/-- The offsets at which the lines begin. -/
def lineOffsets : List Nat := 0 :: Text.breaksFrom 0 d.text

/-- The number of lines, at least one. -/
def lineCount : Nat := d.lineOffsets.length

/-- The offset of the first character of a line. A line that does not exist would begin behind the
end of the text. -/
def lineStart (line : Nat) : Nat := d.lineOffsets.getD line (d.text.length + 1)

/-- The offset at which the text of a line ends, in front of its line break. The last line has no
line break, so it keeps a final carriage return. -/
def lineEnd (line : Nat) : Nat :=
  if line + 1 < d.lineCount then
    let stop := d.lineStart (line + 1) - 1
    if d.lineStart line < stop ∧ d.text[stop - 1]? = some '\r' then stop - 1 else stop
  else d.text.length

/-- The text of a line without its line break; empty for a line that does not exist. -/
def lineText (line : Nat) : Text :=
  if d.lineCount ≤ line then [] else (d.text.take (d.lineEnd line)).drop (d.lineStart line)

/-- The text of a line; empty outside the document on either side. -/
def lineAt (line : Int) : Text := if line < 0 then [] else d.lineText line.toNat

/-! ## Offsets and positions -/

/-- The offset of a place given by any line and character number. -/
def offsetOf (line character : Nat) : Nat :=
  if d.lineCount ≤ line then d.text.length
  else max (min (d.lineStart line + character) (d.lineEnd line)) (d.lineStart line)

/-- The offset of a position. -/
def offsetAt (p : Position) : Nat := d.offsetOf p.line p.character

/-- The offset of the first character of a line, which has to be addressable. -/
def offsetAtLine (line : Int) : Except Fault Nat := do
  return d.offsetAt (← Position.make line 0)

/-- An offset moved into the text. -/
def clamp (offset : Int) : Nat := min offset.toNat d.text.length

/-- The line that an offset is on: the last one that does not begin behind it. -/
def lineOf (offset : Nat) : Nat :=
  Bisection.place (d.lineOffsets.map Int.ofNat) offset - 1

/-- The position of an offset; offsets outside the text count as the nearest one inside. -/
def positionAt (offset : Int) : Except Fault Position :=
  let inside := d.clamp offset
  let line := d.lineOf inside
  Position.make line (inside - d.lineStart line)

/-- The character at an offset, if there is one. -/
def charAt (offset : Int) : Option Char :=
  if offset < 0 then none else d.text[offset.toNat]?

/-- The range between two offsets. -/
def rangeAt (start stop : Int) : Except Fault Range := do
  let first ← d.positionAt start
  let last ← d.positionAt stop
  return ⟨first, last⟩

/-- A one-line summary of the document. -/
def summary : String :=
  let name := if d.uri.isEmpty then "<anonymous>" else d.uri
  s!"SourceText({name}, {d.lineCount} lines)"

end Document

end DialectBridge
