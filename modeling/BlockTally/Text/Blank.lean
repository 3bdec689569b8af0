/-! Blank characters, and texts without the blanks at their ends. -/

set_option autoImplicit false

namespace BlockTally.Text

/-- The characters with the White_Space property, and the four information separators. -/
def isBlank (c : Char) : Bool :=
  let n := c.toNat
  (0x09 ≤ n && n ≤ 0x0D) || (0x1C ≤ n && n ≤ 0x20) || n == 0x85 || n == 0xA0 || n == 0x1680 ||
    (0x2000 ≤ n && n ≤ 0x200A) || n == 0x2028 || n == 0x2029 || n == 0x202F || n == 0x205F || n == 0x3000

theorem isBlank_of_isWhitespace (c : Char) (blank : c.isWhitespace = true) : isBlank c = true := by
  simp only [Char.isWhitespace, Bool.or_eq_true, decide_eq_true_eq] at blank
  rcases blank with ((rfl | rfl) | rfl) | rfl <;> decide

/-- Drop the characters of a class at both ends. -/
def trim (dropped : Char → Bool) (cs : List Char) : List Char :=
  ((cs.dropWhile dropped).reverse.dropWhile dropped).reverse

/-- Drop the blanks at both ends. -/
def trimBlanks (cs : List Char) : List Char :=
  trim isBlank cs

end BlockTally.Text
