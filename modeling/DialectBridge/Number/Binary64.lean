/-!
# Floating-point numbers

Numbers of double precision, kept as exact values: a sign, a whole mantissa and a power of two. No
operation of the machine's own floating-point type is involved in reading or writing them, so what
a decimal rounds to and which decimal is written for a number are ordinary arithmetic on whole
numbers. A finite number is canonical: its mantissa has 53 bits unless its exponent is the least.
-/

set_option autoImplicit false

namespace DialectBridge

/-- A number of double precision. -/
inductive Binary64 where
  /-- No number at all. -/
  | nan
  /-- Beyond the range, on either side. -/
  | infinite (negative : Bool)
  /-- `mantissa * 2 ^ exponent`, or its opposite. -/
  | finite (negative : Bool) (mantissa : Nat) (exponent : Int)
  deriving DecidableEq, Repr

namespace Binary64

/-- The exponent of the smallest positive number. -/
def leastExponent : Int := -1074

/-- The largest exponent of a finite number. -/
def greatestExponent : Int := 971

/-- The least mantissa of 53 bits. -/
def hiddenBit : Nat := 0x10000000000000

/-- The fraction with `2 ^ exponent` divided out. -/
def scaled (numerator denominator : Nat) (exponent : Int) : Nat × Nat :=
  if 0 ≤ exponent then (numerator, denominator * Nat.pow 2 exponent.toNat)
  else (numerator * Nat.pow 2 (-exponent).toNat, denominator)

/-- The nearest whole number to a fraction, the even one of two that are equally near. -/
def roundHalfEven (numerator denominator : Nat) : Nat :=
  let quotient := numerator / denominator
  let remainder := numerator % denominator
  if 2 * remainder < denominator then quotient
  else if denominator < 2 * remainder then quotient + 1
  else quotient + quotient % 2

/-- The exponent at which a positive fraction has a mantissa of 53 bits, or the least one. -/
def exponentFor (numerator denominator : Nat) : Int :=
  let guess := max ((numerator.log2 : Int) - denominator.log2 - 53) leastExponent
  let (n, d) := scaled numerator denominator guess
  if 2 * hiddenBit ≤ n / d then guess + 1 else guess

/-- The number nearest to a fraction. -/
def ofFraction (negative : Bool) (numerator denominator : Nat) : Binary64 :=
  if numerator = 0 then .finite negative 0 leastExponent
  else
    let exponent := exponentFor numerator denominator
    let (n, d) := scaled numerator denominator exponent
    let mantissa := roundHalfEven n d
    let (mantissa, exponent) :=
      if mantissa = 2 * hiddenBit then (hiddenBit, exponent + 1) else (mantissa, exponent)
    if greatestExponent < exponent then .infinite negative else .finite negative mantissa exponent

/-- The number nearest to `digits * 10 ^ exponent`, where `width` is the number of digits. Powers
far outside the range are decided by their size alone. -/
def ofDecimal (negative : Bool) (digits width : Nat) (exponent : Int) : Binary64 :=
  if digits = 0 then .finite negative 0 leastExponent
  else if 310 < width + exponent then .infinite negative
  else if width + exponent < -330 then .finite negative 0 leastExponent
  else if 0 ≤ exponent then ofFraction negative (digits * Nat.pow 10 exponent.toNat) 1
  else ofFraction negative digits (Nat.pow 10 (-exponent).toNat)

/-- The number nearest to an integer, if the integer is in the range of finite numbers. -/
def ofInt? (n : Int) : Option Binary64 :=
  match ofFraction (n < 0) n.natAbs 1 with
  | .finite negative mantissa exponent => some (.finite negative mantissa exponent)
  | _ => none

/-- How many times the smallest positive number goes into the number: a whole number, since every
finite number is a multiple of it. -/
def units? : Binary64 → Option Int
  | .finite negative mantissa exponent =>
    let size : Int := mantissa * Nat.pow 2 (exponent - leastExponent).toNat
    some (if negative then -size else size)
  | .nan | .infinite _ => none

/-- The smallest positive number goes so many times into one. -/
def unitsOfOne : Nat := Nat.pow 2 1074

/-- The number nearest to a sum of two numbers. -/
def add : Binary64 → Binary64 → Binary64
  | .finite a m e, .finite b n f =>
    let total := ((finite a m e).units?.getD 0) + ((finite b n f).units?.getD 0)
    ofFraction (if total = 0 then a && b else total < 0) total.natAbs unitsOfOne
  | .infinite a, .infinite b => if a = b then .infinite a else .nan
  | .infinite a, .finite _ _ _ | .finite _ _ _, .infinite a => .infinite a
  | .nan, _ | _, .nan => .nan

/-- Less than zero. Neither zero is, and neither is what is no number. -/
def isNegative : Binary64 → Bool
  | .nan => false
  | .infinite negative => negative
  | .finite negative mantissa _ => negative && mantissa != 0

/-- The bits of the number in the usual 64-bit layout: sign, exponent, fraction. -/
def toBits : Binary64 → UInt64
  | .nan => 0x7FF8000000000000
  | .infinite negative => (if negative then 0xFFF0000000000000 else 0x7FF0000000000000)
  | .finite negative mantissa exponent =>
    let sign := if negative then 0x8000000000000000 else 0
    let rest := if mantissa < hiddenBit then mantissa
      else (exponent + 1075).toNat * hiddenBit + (mantissa - hiddenBit)
    (sign + rest).toUInt64

end Binary64

end DialectBridge
