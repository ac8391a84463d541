import DialectBridge.Text.Basic

/-!
# Digits

The values of hexadecimal digits and of runs of decimal digits, and how long an integer may be.
-/

set_option autoImplicit false

namespace DialectBridge

namespace Digits

/-- The value of a hexadecimal digit. -/
def hexValue? (c : Char) : Option Nat :=
  if '0' ≤ c && c ≤ '9' then some (c.toNat - 48)
  else if 'a' ≤ c && c ≤ 'f' then some (c.toNat - 87)
  else if 'A' ≤ c && c ≤ 'F' then some (c.toNat - 55)
  else none

/-- A hexadecimal digit. -/
def isHex (c : Char) : Bool := (hexValue? c).isSome

/-- The largest number of digits with which an integer is read or written. -/
def limit : Nat := 4300

/-- Whether an integer has few enough digits to be written. -/
def areFew (value : Int) : Bool := value.natAbs < Nat.pow 10 limit

/-- The number written by decimal digits. -/
def decimalValue (digits : Text) : Nat :=
  digits.foldl (fun n c => n * 10 + (c.toNat - 48)) 0

end Digits

end DialectBridge
