import DialectBridge.Fault

/-!
# Positions and ranges

A position is a line and a character, both counted from zero and both at most `Position.limit`. The
bound is part of the type, so a position that exists is valid; `Position.make` is the only way in
from computed coordinates, and it looks at the line before the character.
-/

set_option autoImplicit false

namespace DialectBridge

/-- A place in a text. -/
structure Position where
  line : Nat
  character : Nat
  line_le : line ≤ 2147483647 := by decide
  character_le : character ≤ 2147483647 := by decide
  deriving DecidableEq, Repr

namespace Position

/-- The largest line number and the largest character number. -/
def limit : Nat := 2147483647

/-- The position with the given coordinates, if both can be addressed; a bad line is reported
before a bad character. -/
def make (line character : Int) : Except Fault Position :=
  if hl : 0 ≤ line ∧ line ≤ 2147483647 then
    if hc : 0 ≤ character ∧ character ≤ 2147483647 then
      .ok ⟨line.toNat, character.toNat, by omega, by omega⟩
    else .error (.characterOutOfRange character)
  else .error (.lineOutOfRange line)

/-- The first character of the text. -/
def origin : Position := ⟨0, 0, by decide, by decide⟩

/-- The order of positions in a text. -/
def before (a b : Position) : Bool :=
  a.line < b.line || (a.line == b.line && a.character < b.character)

end Position

/-- The stretch of text between two positions. -/
structure Range where
  start : Position
  stop : Position
  deriving DecidableEq, Repr

namespace Range

/-- The empty range at a position. -/
def caret (p : Position) : Range := ⟨p, p⟩

/-- The range with the given coordinates; the start is checked before the end. -/
def make (startLine startCharacter stopLine stopCharacter : Int) : Except Fault Range := do
  let start ← Position.make startLine startCharacter
  let stop ← Position.make stopLine stopCharacter
  return ⟨start, stop⟩

/-- A range within one line that has the position inside or at an end. -/
def containsOnLine (r : Range) (p : Position) : Bool :=
  r.start.line == p.line && p.line == r.stop.line &&
    r.start.character ≤ p.character && p.character ≤ r.stop.character

/-- The end comes before the start. -/
def isInverted (r : Range) : Bool := r.stop.before r.start

end Range

end DialectBridge
