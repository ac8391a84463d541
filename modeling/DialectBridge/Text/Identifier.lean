import DialectBridge.Text.Basic
import DialectBridge.Fault

/-!
# Identifiers

Both languages spell identifiers with ASCII letters, digits, the underscore and the dollar sign.
`wordAround` finds the identifier that touches an offset: directly behind a word counts as touching
it, and an offset behind the end of the text is a fault. `wordFromEnd` takes an offset that counts
from the end of the text.
-/

set_option autoImplicit false

namespace DialectBridge

/-- A character of an identifier. -/
def isIdentifier (c : Char) : Bool := c.isAlphanum || c == '_' || c == '$'

/-- A character that can begin an identifier. -/
def isIdentifierStart (c : Char) : Bool := c.isAlpha || c == '_' || c == '$'

/-- The characters of identifiers are the letters and digits of ASCII, the underscore and the dollar
sign. -/
theorem isIdentifier_iff {c : Char} :
    isIdentifier c = true ↔
      'a' ≤ c ∧ c ≤ 'z' ∨ 'A' ≤ c ∧ c ≤ 'Z' ∨ '0' ≤ c ∧ c ≤ '9' ∨ c = '_' ∨ c = '$' := by
  change ((((decide ('A' ≤ c ∧ c ≤ 'Z') || (decide ('a' ≤ c) && decide (c ≤ 'z'))) ||
    (decide ('0' ≤ c) && decide (c ≤ '9'))) || c == '_') || c == '$') = true ↔ _
  simp only [Bool.or_eq_true, Bool.and_eq_true, decide_eq_true_eq, beq_iff_eq, or_assoc]
  exact or_left_comm

/-- An identifier together with the offset of its first character. -/
structure Word where
  text : Text
  offset : Nat
  deriving DecidableEq, Repr

namespace Text

/-- How many identifier characters end directly before an offset. -/
def identifierBefore (t : Text) (offset : Nat) : Nat :=
  ((t.take offset).reverse.takeWhile isIdentifier).length

/-- The longest run of identifier characters that touches the offset; it is empty when neither
neighbour of the offset is one. -/
def wordAround (t : Text) (offset : Nat) : Except Fault Word :=
  if t.length < offset then .error .wordPastEnd
  else
    let start := offset - identifierBefore t offset
    .ok ⟨(t.drop start).takeWhile isIdentifier, start⟩

/-- The identifier that begins some characters before the end of the text. One that reaches the end
goes on at the beginning of the text, and is whole only when the text is nothing but identifier
characters. -/
def wordFromEnd (t : Text) (distance : Nat) : Except Fault Text :=
  if t.length < distance then .error .wordPastEnd
  else
    let rest := t.drop (t.length - distance)
    .ok (if rest.all isIdentifier && !t.all isIdentifier then [] else rest.takeWhile isIdentifier)

/-- The identifier at an offset, which counts from the end of the text when it is negative, and the
offset at which it begins. -/
def wordAt (t : Text) (offset : Int) : Except Fault (Text × Int) :=
  if offset < 0 then do return (← wordFromEnd t offset.natAbs, offset)
  else do
    let word ← wordAround t offset.toNat
    return (word.text, word.offset)

/-- An optional character that is one of an identifier. -/
def isIdentifierAt (c : Option Char) : Bool := c.any isIdentifier

end Text

end DialectBridge
