import DialectBridge.Number.Binary64

/-!
# The shortest decimal

A number is written with the fewest digits that read back as the same number, and among those with
the digits nearest to it. The decimals that read back form an interval around the number whose ends
belong to it exactly when the mantissa is even. For one digit, two digits and so on, the two
neighbours of the number on that decimal grid are tested by exact arithmetic; seventeen digits
always suffice.
-/

set_option autoImplicit false

namespace DialectBridge

/-- A decimal `digits * 10 ^ exponent`. -/
structure Decimal where
  digits : Nat
  exponent : Int
  deriving DecidableEq, Repr

namespace Shortest

/-- What has to be compared to find the place of decimals around `mantissa * 2 ^ exponent`: all
values are counted in quarters of the last binary place. -/
structure Interval where
  /-- The number itself. -/
  value : Nat
  /-- The lower end. -/
  low : Nat
  /-- The upper end. -/
  high : Nat
  /-- The power of two of the unit. -/
  unit : Int
  /-- Whether the ends belong to the interval. -/
  closed : Bool

/-- The decimals that read back as the given number. The gap below a power of two is half as wide
as the one above, except at the least exponent. -/
def interval (mantissa : Nat) (exponent : Int) : Interval where
  value := 4 * mantissa
  low := if mantissa = Binary64.hiddenBit ∧ Binary64.leastExponent < exponent then 4 * mantissa - 1
    else 4 * mantissa - 2
  high := 4 * mantissa + 2
  unit := exponent - 2
  closed := mantissa % 2 == 0

/-- The two factors with which `d * 10 ^ place` and `x * 2 ^ unit` are compared as whole
numbers. -/
def factors (place unit : Int) : Nat × Nat :=
  (Nat.pow 10 place.toNat * Nat.pow 2 (-unit).toNat,
    Nat.pow 2 unit.toNat * Nat.pow 10 (-place).toNat)

/-- Whether `digits * 10 ^ place` lies in the interval. -/
def Interval.contains (i : Interval) (place : Int) (digits : Nat) : Bool :=
  let (left, right) := factors place i.unit
  if i.closed then i.low * right ≤ digits * left && digits * left ≤ i.high * right
  else i.low * right < digits * left && digits * left < i.high * right

/-- The largest power of ten that is not above the number. -/
def leadingPlace (i : Interval) : Int :=
  let guess := Int.fdiv ((i.value.log2 + i.unit) * 30103) 100000
  let above (place : Int) : Bool :=
    let (left, right) := factors place i.unit
    i.value * right < left
  if above guess then guess - 1 else if above (guess + 1) then guess else guess + 1

/-- The better of the number's two neighbours on the grid of `10 ^ place`, if one of them reads
back. -/
def nearest? (i : Interval) (place : Int) : Option Decimal :=
  let (left, right) := factors place i.unit
  let below := i.value * right / left
  let above := below + 1
  match i.contains place below, i.contains place above with
  | true, true =>
    let down := i.value * right - below * left
    let up := above * left - i.value * right
    if down < up || (down == up && below % 2 == 0) then some ⟨below, place⟩
    else some ⟨above, place⟩
  | true, false => some ⟨below, place⟩
  | false, true => some ⟨above, place⟩
  | false, false => none

/-- The shortest decimal of a positive number. -/
def ofParts (mantissa : Nat) (exponent : Int) : Decimal :=
  let i := interval mantissa exponent
  let lead := leadingPlace i
  ((List.range 17).findSome? fun (n : Nat) => nearest? i (lead - n)).getD ⟨mantissa, 0⟩

end Shortest

namespace Binary64

/-- The digits of a decimal without zeros at the end, and how many digits stand before the point. -/
def significant (d : Decimal) : List Char × Int :=
  let all := (toString d.digits).toList
  let kept := (all.reverse.dropWhile (· == '0')).reverse
  (kept, all.length + d.exponent)

/-- Digits and a point: positional between `1e-4` and `1e16`, otherwise with an exponent of at
least two digits; a whole number keeps `.0`. -/
def layout (digits : List Char) (point : Int) : List Char :=
  if -4 < point && point ≤ 16 then
    if point ≤ 0 then '0' :: '.' :: List.replicate (-point).toNat '0' ++ digits
    else
      let whole := digits.take point.toNat
      let fraction := digits.drop point.toNat
      let zeros := List.replicate (point.toNat - whole.length) '0'
      whole ++ zeros ++ '.' :: (if fraction.isEmpty then ['0'] else fraction)
  else
    let exponent := point - 1
    let size := (toString exponent.natAbs).toList
    let size := if size.length < 2 then '0' :: size else size
    let sign := if exponent < 0 then '-' else '+'
    match digits with
    | [] => []
    | [d] => d :: 'e' :: sign :: size
    | d :: more => d :: '.' :: more ++ 'e' :: sign :: size

/-- The number as messages show it. -/
def display : Binary64 → String
  | .nan => "nan"
  | .infinite negative => if negative then "-inf" else "inf"
  | .finite negative mantissa exponent =>
    let sign := if negative then ['-'] else []
    if mantissa = 0 then String.ofList (sign ++ ['0', '.', '0'])
    else
      let (digits, point) := significant (Shortest.ofParts mantissa exponent)
      String.ofList (sign ++ layout digits point)

end Binary64

end DialectBridge
