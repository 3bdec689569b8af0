import BlockTally.Value

/-! Enumerations: closed lists of named numbers. -/

set_option autoImplicit false

namespace BlockTally

structure Enumeration where
  title : String
  members : List (String × Int)

namespace Enumeration

def name? (e : Enumeration) (number : Int) : Option String :=
  (e.members.find? fun entry => entry.2 = number).map Prod.fst

def number? (e : Enumeration) (name : String) : Option Int :=
  (e.members.find? fun entry => entry.1 = name).map Prod.snd

/-- The name of a value; a text has none, numeral or not. -/
def valueName? (e : Enumeration) : Value → Option String
  | .int number => e.name? number
  | .str _ => none

/-- A value as its name, or as itself when it has none. -/
def spell (e : Enumeration) (value : Value) : String :=
  (e.valueName? value).getD value.text

end Enumeration

end BlockTally
