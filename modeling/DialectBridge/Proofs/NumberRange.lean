import DialectBridge.Number.Quantity
import Mathlib.Order.Basic

/-!
# The range of double precision

A whole number is brought to double precision by rounding it to 53 bits. The exponent is known from
its length, and rounding up can add one to it. So there is a nearest finite number up to half a
unit above the greatest one. From there on, at `overflow`, the nearest number is infinite: the
greatest mantissa is odd, so the tie goes up (`ofInt?_eq_none_iff`).
-/

set_option autoImplicit false

namespace DialectBridge

namespace Binary64

/-! ## Mantissas -/

/-- Rounding a fraction gives one of the two whole numbers around it; the one above when the
remainder is more than a half, or is a half and the one below is odd. -/
theorem roundHalfEven_cases (n d : Nat) :
    roundHalfEven n d = n / d + 1 ∧ (d < 2 * (n % d) ∨ d = 2 * (n % d) ∧ n / d % 2 = 1) ∨
      roundHalfEven n d = n / d ∧ (2 * (n % d) < d ∨ d = 2 * (n % d) ∧ n / d % 2 = 0) := by
  unfold roundHalfEven
  dsimp only
  split
  · next less => exact .inr ⟨rfl, .inl less⟩
  · split
    · next more => exact .inl ⟨rfl, .inl more⟩
    · rcases Nat.mod_two_eq_zero_or_one (n / d) with even | odd
      · exact .inr ⟨by rw [even, Nat.add_zero], .inr ⟨by omega, even⟩⟩
      · exact .inl ⟨by rw [odd], .inr ⟨by omega, odd⟩⟩

/-! Powers of two, in the form in which the definitions have them. -/

theorem pow_add (a b : Nat) : Nat.pow 2 (a + b) = Nat.pow 2 a * Nat.pow 2 b :=
  Nat.pow_add 2 a b

theorem pow_pos (a : Nat) : 0 < Nat.pow 2 a := Nat.pow_pos (by decide)

theorem pow_mono {a b : Nat} (le : a ≤ b) : Nat.pow 2 a ≤ Nat.pow 2 b :=
  Nat.pow_le_pow_right (by decide) le

section Whole

variable {n : Nat}

/-- The number of bits of a whole number. -/
theorem log2_bounds (positive : 0 < n) :
    Nat.pow 2 n.log2 ≤ n ∧ n < Nat.pow 2 (n.log2 + 1) :=
  ⟨Nat.log2_self_le (Nat.pos_iff_ne_zero.1 positive), Nat.lt_log2_self⟩

/-- The part of a whole number in front of the point, scaled so that it has `bits + 1` bits. -/
theorem scaled_bounds (positive : 0 < n) {bits : Nat} {exponent : Int}
    (scale : exponent = n.log2 - bits) :
    Nat.pow 2 bits ≤ (scaled n 1 exponent).1 / (scaled n 1 exponent).2 ∧
      (scaled n 1 exponent).1 / (scaled n 1 exponent).2 < Nat.pow 2 (bits + 1) := by
  obtain ⟨low, high⟩ := log2_bounds positive
  unfold scaled
  split
  · next more =>
    have size : n.log2 = bits + exponent.toNat := by omega
    have size' : n.log2 + 1 = (bits + 1) + exponent.toNat := by omega
    rw [size, pow_add] at low
    rw [size', pow_add] at high
    rw [Nat.one_mul]
    exact ⟨(Nat.le_div_iff_mul_le (pow_pos _)).2 low, (Nat.div_lt_iff_lt_mul (pow_pos _)).2 high⟩
  · next less =>
    have size : Nat.pow 2 bits = Nat.pow 2 n.log2 * Nat.pow 2 (-exponent).toNat := by
      rw [← pow_add]
      exact congrArg (Nat.pow 2) (by omega)
    have size' : Nat.pow 2 (bits + 1) = Nat.pow 2 (n.log2 + 1) * Nat.pow 2 (-exponent).toNat := by
      rw [← pow_add]
      exact congrArg (Nat.pow 2) (by omega)
    rw [size, size', Nat.div_one]
    exact ⟨Nat.mul_le_mul_right _ low, Nat.mul_lt_mul_of_pos_right high (pow_pos _)⟩

/-- The exponent of a whole number leaves it 53 bits. -/
theorem exponentFor_whole (positive : 0 < n) : exponentFor n 1 = n.log2 - 52 := by
  have guess : max ((n.log2 : Int) - Nat.log2 1 - 53) leastExponent = n.log2 - 53 := by
    have one : Nat.log2 1 = 0 := by decide
    rw [one]
    unfold leastExponent
    omega
  have enough : 2 * hiddenBit ≤ _ := (@scaled_bounds n positive 53 _ rfl).1
  unfold exponentFor
  rw [guess]
  exact (if_pos enough).trans (by omega)

/-- The mantissa of a whole number, and its exponent, which is one more after a carry. -/
theorem ofFraction_whole (negative : Bool) (positive : 0 < n) {mantissa : Nat}
    (rounded : roundHalfEven (scaled n 1 (n.log2 - 52)).1 (scaled n 1 (n.log2 - 52)).2 =
      mantissa) :
    ofFraction negative n 1 =
      if mantissa = 2 * hiddenBit then
        if 1022 < n.log2 then .infinite negative
        else .finite negative hiddenBit (n.log2 - 51)
      else if 1023 < n.log2 then .infinite negative
      else .finite negative mantissa (n.log2 - 52) := by
  unfold ofFraction
  rw [if_neg (Nat.pos_iff_ne_zero.1 positive), exponentFor_whole positive]
  dsimp only
  rw [rounded]
  unfold greatestExponent
  split
  · have carry : (n.log2 : Int) - 52 + 1 = n.log2 - 51 := by omega
    have large : (971 : Int) < n.log2 - 51 ↔ 1022 < n.log2 := by omega
    simp only [carry, large]
  · have large : (971 : Int) < n.log2 - 52 ↔ 1023 < n.log2 := by omega
    simp only [large]

/-! ## The end of the range -/

/-- Of the multiples of a unit that are given by 53 bits, rounding goes beyond the greatest one from
the half of the unit behind it on. -/
theorem roundHalfEven_eq_carry_iff {half : Nat} (positive : 0 < half)
    (short : n / (2 * half) < 2 * hiddenBit) :
    roundHalfEven n (2 * half) = 2 * hiddenBit ↔ (4 * hiddenBit - 1) * half ≤ n := by
  have divided := Nat.div_add_mod n (2 * half)
  have small := Nat.mod_lt n (show 0 < 2 * half by omega)
  have cases_ := roundHalfEven_cases n (2 * half)
  unfold hiddenBit at *
  by_cases greatest : n / (2 * half) = 2 * 0x10000000000000 - 1
  · rw [greatest] at cases_ divided
    omega
  · have less := Nat.mul_le_mul_left (2 * half)
      (show n / (2 * half) + 1 ≤ 2 * 0x10000000000000 - 1 by omega)
    rw [Nat.mul_add, Nat.mul_one] at less
    omega

/-- Half a unit above the greatest number of 53 bits, where a unit is `2 ^ (e + 1)`. -/
def halfAbove (e : Nat) : Nat := (4 * hiddenBit - 1) * Nat.pow 2 e

/-- The least whole number for which the nearest number is infinite. -/
def overflow : Nat := halfAbove 970

/-- The nearest number of a whole number is infinite from half a unit above the greatest finite
number on. The exponent has a name here, since its power is not to be computed. -/
theorem ofFraction_eq_infinite_iff {e : Nat} (top : e = 970) (negative : Bool) :
    ofFraction negative n 1 = .infinite negative ↔ halfAbove e ≤ n := by
  have unit := pow_pos e
  unfold halfAbove
  rcases Nat.eq_zero_or_pos n with rfl | positive
  · refine iff_of_false ?_ (by unfold hiddenBit; omega)
    unfold ofFraction
    rw [if_pos rfl]
    exact nofun
  obtain ⟨low, high⟩ := log2_bounds positive
  rw [ofFraction_whole negative positive rfl]
  rcases Nat.lt_trichotomy n.log2 1023 with less | size | more
  · have small := pow_mono (show n.log2 + 1 ≤ 53 + e by omega)
    have scale : Nat.pow 2 53 = 2 * hiddenBit := rfl
    rw [pow_add 53, scale] at small
    refine iff_of_false ?_ (by unfold hiddenBit at *; omega)
    rw [if_neg (show ¬ 1022 < n.log2 by omega), if_neg (show ¬ 1023 < n.log2 by omega)]
    split <;> exact nofun
  · have parts : scaled n 1 (n.log2 - 52) = (n, 2 * Nat.pow 2 e) := by
      rw [show (n.log2 : Int) - 52 = (1 + e : Nat) by omega, scaled,
        if_pos (Int.natCast_nonneg _), Int.toNat_natCast, Nat.one_mul, pow_add]
    have short : n / (2 * Nat.pow 2 e) < 2 * hiddenBit := by
      have bounds := (@scaled_bounds n positive 52 (n.log2 - 52) rfl).2
      rwa [parts] at bounds
    rw [← roundHalfEven_eq_carry_iff unit short, parts,
      if_pos (show 1022 < n.log2 by omega), if_neg (show ¬ 1023 < n.log2 by omega)]
    split
    · next carried => exact iff_of_true rfl carried
    · next kept => exact iff_of_false nofun kept
  · have large := pow_mono (show 54 + e ≤ n.log2 by omega)
    have scale : Nat.pow 2 54 = 4 * hiddenBit := rfl
    rw [pow_add 54, scale] at large
    refine iff_of_true ?_ (by unfold hiddenBit at *; omega)
    rw [if_pos (show 1022 < n.log2 by omega), if_pos more]
    split <;> rfl

/-- A whole number has a nearest number with its own sign, which is finite or infinite. -/
theorem ofFraction_whole_cases (negative : Bool) :
    ofFraction negative n 1 = .infinite negative ∨
      ∃ mantissa exponent, ofFraction negative n 1 = .finite negative mantissa exponent := by
  rcases Nat.eq_zero_or_pos n with rfl | positive
  · exact .inr ⟨0, leastExponent, by rw [ofFraction, if_pos rfl]⟩
  · rw [ofFraction_whole negative positive rfl]
    split
    · split
      · exact .inl rfl
      · exact .inr ⟨_, _, rfl⟩
    · split
      · exact .inl rfl
      · exact .inr ⟨_, _, rfl⟩

/-- **Whole numbers overflow from `overflow` on**: for the smaller ones there is a nearest finite
number. -/
theorem ofInt?_eq_none_iff {k : Int} : ofInt? k = none ↔ overflow ≤ k.natAbs := by
  unfold overflow
  rw [← @ofFraction_eq_infinite_iff k.natAbs 970 rfl (k < 0), ofInt?]
  rcases ofFraction_whole_cases (n := k.natAbs) (k < 0) with outside | ⟨mantissa, exponent, inside⟩
  · rw [outside]
    exact iff_of_true rfl rfl
  · rw [inside]
    exact iff_of_false nofun nofun

/-- The nearest number of a whole number keeps its sign. -/
theorem isNegative_of_ofInt? {k : Int} {x : Binary64} (sign : 0 ≤ k) (found : ofInt? k = some x) :
    x.isNegative = false ∧ x ≠ .nan := by
  unfold ofInt? at found
  split at found
  · next negative mantissa exponent made =>
    cases found
    rcases ofFraction_whole_cases (n := k.natAbs) (k < 0) with outside | ⟨_, _, inside⟩
    · cases outside.symm.trans made
    · obtain ⟨own, -, -⟩ := Binary64.finite.inj (inside.symm.trans made)
      rw [decide_eq_false (by omega)] at own
      rw [← own]
      exact ⟨rfl, nofun⟩
  · cases found

end Whole

end Binary64

end DialectBridge
