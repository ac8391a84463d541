import DialectBridge.Document

/-!
# Lines with the same content

Where a map is silent, for instance inside a block comment that is copied over as it is, a line is
found again by its content: the text of the line without indentation and without the signs that
begin and end comments. Among several lines with the same content the first one is taken, and a
column keeps its distance to the beginning of the content.
-/

set_option autoImplicit false

namespace DialectBridge

namespace LineContent

/-- The text behind the sign that begins a comment, if there is one: a line comment, the beginning
or a continuation line of a block comment, or any number of comment signs. -/
def dropOpening : Text → Text
  | '/' :: '/' :: rest => rest
  | '/' :: '*' :: rest => rest
  | '*' :: rest => rest
  | t => t.dropWhile (· == '#')

/-- The text before the sign that ends a block comment, if there is one. -/
def dropClosing (t : Text) : Text :=
  if Text.endsWith ['#', '#', '#'] t then t.take (t.length - 3)
  else if Text.endsWith ['*', '/'] t then t.take (t.length - 2)
  else t

/-- The content of a line. -/
def content (line : Text) : Text :=
  Text.trimRight (dropClosing (Text.trim (dropOpening (Text.trimLeft line))))

/-- The first of the lines with the given content, and its number. -/
def findLine? (wanted : Text) (lines : List Text) : Option (Text × Nat) :=
  lines.zipIdx.find? fun entry => content entry.1 == wanted

/-- The position in a text that corresponds to a character of a line, by content. -/
def position? (character : Nat) (line inText : Text) : Except Fault (Option Position) :=
  let wanted := content line
  if wanted.isEmpty then .ok none
  else
    match findLine? wanted (Text.lines inText) with
    | none => .ok none
    | some (found, number) =>
      let column : Int := character - ((Text.find? wanted line).getD 0 : Nat) +
        ((Text.find? wanted found).getD 0 : Nat)
      (Position.make number (max column 0)).map some

end LineContent

end DialectBridge
