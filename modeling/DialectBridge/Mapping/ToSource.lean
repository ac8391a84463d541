import DialectBridge.Generated
import DialectBridge.LineContent

/-!
# From generated text to source

A generated position is mapped by the entry at its column, else by the closest one before it, else
by the first one of its line. Lines of block comments have no usable entries and are found by their
content. Failing all that, the next generated line with an entry decides.
-/

set_option autoImplicit false

namespace DialectBridge

namespace ToSource

/-- A generated line that begins a block comment. -/
def beginsBlockComment (line : Text) : Bool := Text.startsWith ['/', '*'] (Text.trim line)

/-- The entry of a generated line for a column. -/
def entry? (line : LineMap) (column : Int) : Option Mapping :=
  (line.at? column).or ((line.closestBefore? column).or line.first?)

/-- The entry for a generated position on its own line. -/
def entryOnLine? (map : ColumnMap) (js : Text) (p : Position) : Option Mapping :=
  if beginsBlockComment (Document.lineText ⟨js, ""⟩ p.line) then none
  else (map.line? p.line).bind fun line => entry? line p.character

/-- The first entry of the lines below a generated position. -/
def entryBelow? (map : ColumnMap) (p : Position) : Option Mapping :=
  (map.lines.drop (p.line + 1)).findSome? (·.first?)

/-- The source position of an entry. -/
def entryPosition (m : Mapping) : Except Fault Position :=
  Position.make m.sourceLine m.sourceColumn

/-- The source position of a generated position, given the generated text and its map. -/
def position? (js : Text) (map : ColumnMap) (p : Position) (source : Text) :
    Except Fault (Option Position) :=
  match entryOnLine? map js p with
  | some m => (entryPosition m).map some
  | none => do
    match ← LineContent.position? p.character (Document.lineText ⟨js, ""⟩ p.line) source with
    | some found => return some found
    | none =>
      match entryBelow? map p with
      | some m => (entryPosition m).map some
      | none => return none

end ToSource

namespace Generated

/-- The source position of a generated position; none without a map. -/
def toSource (g : Generated) (p : Position) (source : Text) : Except Fault (Option Position) :=
  match g.js, g.map with
  | some js, some map => ToSource.position? js map p source
  | _, _ => .ok none

/-- The source range of a generated range, if both ends can be mapped. -/
def rangeToSource (g : Generated) (r : Range) (source : Text) : Except Fault (Option Range) := do
  let start ← g.toSource r.start source
  let stop ← g.toSource r.stop source
  match start, stop with
  | some start, some stop => return some ⟨start, stop⟩
  | _, _ => return none

end Generated

end DialectBridge
