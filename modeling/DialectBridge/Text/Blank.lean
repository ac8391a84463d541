/-!
# White space

The characters that count as white space when a line is stripped, split from its indentation or
tested for being empty. The class is wider than ASCII: it has the four separators below the space,
the next-line control, and the spaces of other scripts.
-/

set_option autoImplicit false

namespace DialectBridge

/-- White space: the ASCII controls that move the cursor, the four information separators, the
space itself, and every wider or narrower space of the character set. -/
def isBlank (c : Char) : Bool :=
  let n := c.toNat
  (9 ≤ n && n ≤ 13) || (28 ≤ n && n ≤ 32) || n == 0x85 || n == 0xA0 || n == 0x1680 ||
    (0x2000 ≤ n && n ≤ 0x200A) || n == 0x2028 || n == 0x2029 || n == 0x202F || n == 0x205F ||
    n == 0x3000

/-- Indentation inside a line: a space or a tab. -/
def isIndent (c : Char) : Bool := c == ' ' || c == '\t'

/-- Whatever indents is white space. -/
theorem isBlank_of_isIndent {c : Char} (h : isIndent c = true) : isBlank c = true := by
  simp only [isIndent, Bool.or_eq_true, beq_iff_eq] at h
  rcases h with rfl | rfl <;> decide

end DialectBridge
