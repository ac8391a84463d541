import DialectBridge.Document

/-!
# Cursors

What is known about a source position before it is mapped: its line, the character it stands on,
and the word it touches.
-/

set_option autoImplicit false

namespace DialectBridge

/-- A source position with its surroundings. -/
structure Cursor where
  position : Position
  offset : Nat
  line : Text
  /-- The character at the position; none behind the end of the line. -/
  char : Option Char
  word : Word
  /-- The column of the first character of the word. -/
  wordColumn : Nat
  /-- The position stands directly behind its word. -/
  atEndOfWord : Bool
  deriving DecidableEq, Repr

namespace Cursor

/-- The cursor at a position of a source. -/
def ofPosition (source : Document) (position : Position) : Except Fault Cursor := do
  let offset := source.offsetAt position
  let current := source.lineText position.line
  let word ← Text.wordAround source.text offset
  let start ← source.positionAt word.offset
  return {
    position, offset, word
    line := current
    char := current[position.character]?
    wordColumn := start.character
    atEndOfWord := !word.text.isEmpty && word.offset + word.text.length == offset }

/-- The column of the closest character to the left that is not a space. -/
def previousFilled? (c : Cursor) : Option Nat :=
  match ((c.line.take c.position.character).reverse.dropWhile (· == ' ')).length with
  | 0 => none
  | n + 1 => some n

end Cursor

end DialectBridge
