import DialectBridge.Preparation.Edit
import DialectBridge.Text.Identifier
import DialectBridge.Text.Split

/-!
# Forceful edits

Edits that may break complete source and are made only when it does not compile anyway. They close
what is left open at the end of a line and take out spread operators. The number of lines stays the
same.
-/

set_option autoImplicit false

namespace DialectBridge

namespace Preparation

/-- A single or a double quote. -/
def isQuote (c : Char) : Bool := c == '"' || c == '\x27'

/-- A line with exactly one quote gets the same quote at its end. -/
def closeString? (line : Text) : Option Text :=
  let code := Text.body line
  match code.filter isQuote with
  | [quote] => if code.contains '\r' then none else some (code ++ quote :: Text.tail line)
  | _ => none

/-- Closes a string that is left open. -/
def stringEdit : Edit := .onEachLine "close open string" closeString?

/-- A call whose parenthesis is not closed on the rest of the line. -/
def isOpenCall (before after : Text) : Bool :=
  match after with
  | '(' :: rest =>
    before.getLast?.any isIdentifier && rest.all fun c => c != ')' && c != '\r'
  | _ => false

/-- A line with a call that is left open gets a parenthesis at its end. -/
def closeCall? (line : Text) : Option Text :=
  (Text.firstPlace? isOpenCall (Text.body line)).map fun _ =>
    Text.body line ++ ')' :: Text.tail line

/-- Closes a call that is left open. -/
def callEdit : Edit := .onEachLine "close open call paren" closeCall?

/-- A brace at the end of a line goes, together with the indentation characters before it. -/
def removeBrace? (line : Text) : Option Text :=
  match Text.splitLast? (Text.body line) with
  | some (before, c) =>
    if c == '\x7b' || c == '\x7d' then
      some ((before.reverse.dropWhile isIndent).reverse ++ Text.tail line)
    else none
  | none => none

/-- Removes braces that end a line. -/
def braceEdit : Edit := .onEachLine "remove trailing brace" removeBrace?

/-- A spread in front of a word becomes a key. -/
def leadingSpread : ReplacementRule := fun _ t =>
  match t with
  | '.' :: '.' :: '.' :: c :: _ =>
    if isIdentifierStart c then some ⟨4, ['_', ':', ' ', c]⟩ else none
  | _ => none

/-- Removes spreads in front of words. -/
def leadingSpreadEdit : Edit := .scanning "remove leading spread" leadingSpread

/-- A spread behind a word becomes a value. -/
def trailingSpread : ReplacementRule := fun _ t =>
  match t with
  | c :: '.' :: '.' :: '.' :: _ =>
    if isIdentifierStart c then some ⟨4, [c, ':', ' ', '_']⟩ else none
  | _ => none

/-- Removes spreads behind words. -/
def trailingSpreadEdit : Edit := .scanning "remove trailing spread" trailingSpread

/-- The forceful edits in their order. -/
def forcefulEdits : List Edit :=
  [stringEdit, callEdit, braceEdit, leadingSpreadEdit, trailingSpreadEdit]

end Preparation

end DialectBridge
