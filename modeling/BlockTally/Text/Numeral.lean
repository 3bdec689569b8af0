import BlockTally.Text.Blank
import BlockTally.Text.Digit

/-! Decimal numerals as they are accepted where a number is wanted but a text was given.

A numeral has an optional sign and digits, of any scripts; one underscore may stand between two digits, and
blanks around the whole are ignored. The information separators are no blanks here.
-/

set_option autoImplicit false

namespace BlockTally.Text.Numeral

/-- A numeral with more digits is not read. -/
def maxDigits : Nat := 4300

def isPadding (c : Char) : Bool :=
  isBlank c && !(0x1C ≤ c.toNat && c.toNat ≤ 0x1F)

/-- Read on after a digit, with the number read so far and how many digits may follow. -/
def readOn (number : Nat) : Nat → List Char → Option Nat
  | _, [] => some number
  | 0, _ :: _ => none
  | room + 1, '_' :: c :: rest => (digit? c).bind fun d => readOn (10 * number + d) room rest
  | room + 1, c :: rest => (digit? c).bind fun d => readOn (10 * number + d) room rest

def readDigits : List Char → Option Nat
  | [] => none
  | c :: rest => (digit? c).bind fun d => readOn d (maxDigits - 1) rest

def read? (text : String) : Option Int :=
  match trim isPadding text.toList with
  | '-' :: rest => (readDigits rest).map fun n => -(n : Int)
  | '+' :: rest => (readDigits rest).map Int.ofNat
  | rest => (readDigits rest).map Int.ofNat

end BlockTally.Text.Numeral
