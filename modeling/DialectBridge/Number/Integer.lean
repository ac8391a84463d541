import DialectBridge.Number.Digits
import DialectBridge.Text.DecimalDigit

/-!
# Reading integers

An integer may have white space around it and a sign in front; its digits may be those of any
script, and single underscores may stand between them. Digits beyond `Digits.limit` make a number
too long to be read; zeros in front count, underscores do not.
-/

set_option autoImplicit false

namespace DialectBridge

namespace Integer

/-- White space around a number: the information separators, which are white space elsewhere, do
not count. -/
def isPadding (c : Char) : Bool := isBlank c && !(28 ≤ c.toNat && c.toNat ≤ 31)

/-- Without white space at either end. -/
def strip (t : Text) : Text :=
  ((t.dropWhile isPadding).reverse.dropWhile isPadding).reverse

/-- The value of digits with single underscores between them, given the value of the digits before
and whether an underscore may follow. -/
def digitsFrom (value : Nat) (afterDigit : Bool) : Text → Option Nat
  | [] => if afterDigit then some value else none
  | c :: rest =>
    if c == '_' then if afterDigit then digitsFrom value false rest else none
    else
      match decimalDigit? c with
      | some digit => digitsFrom (value * 10 + digit) true rest
      | none => none

/-- The value of the digits behind the sign, if there are not too many of them. -/
def magnitude? (digits : Text) : Option Nat :=
  if Digits.limit < digits.countP (· != '_') then none else digitsFrom 0 false digits

/-- The integer that a text writes. -/
def read? (t : Text) : Option Int :=
  match strip t with
  | '-' :: digits => (magnitude? digits).map fun n => -(n : Int)
  | '+' :: digits => (magnitude? digits).map fun n => (n : Int)
  | digits => (magnitude? digits).map fun n => (n : Int)

end Integer

end DialectBridge
