import BlockTally.Text.Numeral
import BlockTally.Text.Quoted

/-! Literal values: what an operand holds is an integer of any size or a text. -/

set_option autoImplicit false

namespace BlockTally

/-- Result ids are integers; 0 stands for "no id". -/
abbrev Id := Int

inductive Value where
  | int (number : Int)
  | str (text : String)
  deriving DecidableEq, Repr, Inhabited

namespace Value

instance : Coe Int Value := ⟨.int⟩

def text : Value → String
  | .int number => toString number
  | .str text => text

/-- The text of a value with texts quoted, so that numbers and numerals differ. -/
def quoted : Value → String
  | .int number => toString number
  | .str text => Text.Quoted.encode text

/-- The number a value denotes; a text denotes one if it is a numeral. -/
def number? : Value → Option Int
  | .int number => some number
  | .str text => Text.Numeral.read? text

/-- A numeral as the number it denotes; any other value as it is. -/
def plain (value : Value) : Value :=
  match value.number? with
  | some number => .int number
  | none => value

@[simp] theorem plain_int (number : Int) : plain (.int number) = .int number := rfl

theorem plain_plain (value : Value) : value.plain.plain = value.plain := by
  cases found : value.number? with
  | none => simp [plain, found]
  | some number =>
    have same : value.plain = .int number := by simp [plain, found]
    rw [same, plain_int]

/-- Zero and the empty text are unset flags, every other value is a set one. -/
def isSet : Value → Bool
  | .int number => number != 0
  | .str text => text != ""

/-- Integers come before texts, integers by size and texts by code points. -/
def le : Value → Value → Bool
  | .int a, .int b => decide (a ≤ b)
  | .int _, .str _ => true
  | .str _, .int _ => false
  | .str a, .str b => !decide (b < a)

/-- Whether both are integers or both are texts; only then do they have a size order. -/
def sameKind : Value → Value → Bool
  | .int _, .int _ => true
  | .str _, .str _ => true
  | _, _ => false

end Value

/-- A bracketed list of values. -/
def listText (values : List Value) : String :=
  "[" ++ ", ".intercalate (values.map Value.quoted) ++ "]"

end BlockTally
