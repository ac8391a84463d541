import DialectBridge.Fault
import DialectBridge.Number.Binary64

/-!
# Quantities

A quantity is a whole number of any size or a number of double precision. Whole numbers stay exact
among themselves; a sum with a number of double precision is one as well, rounded to the nearest.
Quantities are compared by their exact values, whatever their kinds, and what is no number compares
with nothing.
-/

set_option autoImplicit false

namespace DialectBridge

/-- A whole number or a number of double precision. -/
inductive Quantity where
  | whole (n : Int)
  | real (x : Binary64)
  deriving DecidableEq, Repr

namespace Quantity

/-! ## Order -/

/-- On which side of the finite quantities a quantity lies: below them, among them or above. What is
no number has no side. -/
def side? : Quantity → Option Int
  | .whole _ | .real (.finite _ _ _) => some 0
  | .real (.infinite negative) => some (if negative then -1 else 1)
  | .real .nan => none

/-- The exact value of a finite quantity, counted in smallest positive numbers. -/
def units : Quantity → Int
  | .whole n => n * Binary64.unitsOfOne
  | .real x => x.units?.getD 0

/-- Less than. -/
def less (a b : Quantity) : Bool :=
  match a.side?, b.side? with
  | some x, some y => x < y || (x == 0 && y == 0 && a.units < b.units)
  | _, _ => false

/-- Less than or equal. -/
def lessOrEqual (a b : Quantity) : Bool :=
  match a.side?, b.side? with
  | some x, some y => x < y || (x == y && (x != 0 || a.units ≤ b.units))
  | _, _ => false

instance : LT Quantity := ⟨fun a b => less a b = true⟩
instance : LE Quantity := ⟨fun a b => lessOrEqual a b = true⟩
instance : DecidableLT Quantity := fun a b => inferInstanceAs (Decidable (less a b = true))
instance : DecidableLE Quantity := fun a b => inferInstanceAs (Decidable (lessOrEqual a b = true))

/-! ## Sums -/

/-- The nearest number of double precision; a whole number beyond their range counts as infinite. -/
def toReal : Quantity → Binary64
  | .whole n => .ofFraction (n < 0) n.natAbs 1
  | .real x => x

/-- The sum of two quantities. -/
def add : Quantity → Quantity → Quantity
  | .whole a, .whole b => .whole (a + b)
  | a, b => .real (a.toReal.add b.toReal)

instance : Add Quantity := ⟨add⟩
instance : Zero Quantity := ⟨.whole 0⟩

/-- A whole number beyond the range of double precision. -/
def isBeyondRange : Quantity → Bool
  | .whole n => (Binary64.ofInt? n).isNone
  | .real _ => false

/-- The sum of two quantities, unless a whole number that is beyond the range would have to be
brought to double precision for it. -/
def after : Quantity → Quantity → Except Fault Quantity
  | .whole a, .whole b => .ok (.whole (a + b))
  | a, b => if a.isBeyondRange || b.isBeyondRange then .error .numberTooLarge else .ok (a + b)

end Quantity

end DialectBridge
