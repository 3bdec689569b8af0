import BlockTally.Program.Operand

/-! Instructions.

The type id and the result id stand apart from the other operands; 0 stands for an instruction without
a type or without a result.
-/

set_option autoImplicit false

namespace BlockTally

structure Instruction where
  opcode : Opcode
  typeId : Id := 0
  resultId : Id := 0
  operands : List Operand := []
  deriving DecidableEq, Repr, Inhabited

namespace Instruction

def hasType (i : Instruction) : Bool :=
  i.typeId != 0

def hasResult (i : Instruction) : Bool :=
  i.resultId != 0

def isTerminator (i : Instruction) : Bool :=
  i.opcode.isTerminator

/-- The value of the operand at a place, the first one being at 0. -/
def value (i : Instruction) (place : Nat) : Except Error Value :=
  match i.operands[place]? with
  | some operand => .ok operand.value
  | none => .error (.fault .missingEntry)

/-- The values of the operands from a place on. -/
def valuesFrom (i : Instruction) (place : Nat) : List Value :=
  (i.operands.drop place).map Operand.value

/-- The ids that the instruction refers to: its type, then its id operands in order. -/
def usedIds (i : Instruction) : List Value :=
  (if i.hasType then [Value.int i.typeId] else []) ++
    (i.operands.filter Operand.isId).map Operand.value

def text (i : Instruction) : String :=
  let parts := (if i.hasType then [idText i.typeId] else []) ++ i.operands.map Operand.text
  let body := " ".intercalate (i.opcode.text :: parts)
  if i.hasResult then idText i.resultId ++ " = " ++ body else body

def inspect (i : Instruction) : String :=
  "<Instruction " ++ i.text ++ ">"

end Instruction

end BlockTally
