import DialectBridge.Text.Basic
import DialectBridge.Text.Printable

/-!
# Quoted texts

How a text is shown inside a message: between single quotes, or between double quotes when it has
single quotes and no double ones. Backslashes, the quote in use, and whatever is not printable are
escaped, so the quoted form always stands on one line.
-/

set_option autoImplicit false

namespace DialectBridge

namespace Quoted

/-- The apostrophe. -/
def single : Char := '\x27'

/-- The quotation mark. -/
def double : Char := '"'

/-- Which quote encloses a text. -/
def quoteFor (t : Text) : Char :=
  if t.contains single && !t.contains double then double else single

/-- One digit of a hexadecimal escape, in lower case. -/
def hexDigit (n : Nat) : Char := Nat.digitChar (n % 16)

/-- The last `width` hexadecimal digits of a number, most significant first. -/
def hex : Nat → Nat → Text
  | 0, _ => []
  | width + 1, n => hex width (n / 16) ++ [hexDigit n]

/-- One character between the given quotes. -/
def encodeChar (quote c : Char) : Text :=
  if c == quote || c == '\\' then ['\\', c]
  else if c == '\n' then ['\\', 'n']
  else if c == '\r' then ['\\', 'r']
  else if c == '\t' then ['\\', 't']
  else if isPrintable c then [c]
  else if c.toNat < 0x100 then '\\' :: 'x' :: hex 2 c.toNat
  else if c.toNat < 0x10000 then '\\' :: 'u' :: hex 4 c.toNat
  else '\\' :: 'U' :: hex 8 c.toNat

/-- The quoted form of a text. -/
def encode (t : Text) : Text :=
  let quote := quoteFor t
  quote :: t.flatMap (encodeChar quote) ++ [quote]

/-- The quoted form of a string. -/
def display (s : String) : String := String.ofList (encode s.toList)

end Quoted

end DialectBridge
