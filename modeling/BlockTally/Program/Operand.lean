import BlockTally.Error
import BlockTally.Grammar.OperandKind

/-! Operands: a value with the kind that tells what the value means. -/

set_option autoImplicit false

namespace BlockTally

structure Operand where
  kind : OperandKind
  value : Value
  deriving DecidableEq, Repr, Inhabited

namespace Operand

def ofId (id : Value) : Operand := ⟨.id, id⟩

def literal (value : Value) : Operand := ⟨.literalInteger, value⟩

def string (text : Value) : Operand := ⟨.literalString, text⟩

def isId (operand : Operand) : Bool :=
  operand.kind.isId

def text (operand : Operand) : String :=
  match operand.kind with
  | .id | .scopeId | .memorySemanticsId => idText operand.value
  | .literalString => "\"" ++ operand.value.text ++ "\""
  | kind => match kind.enumeration? with
    | some enumeration => enumeration.spell operand.value
    | none => operand.value.text

/-- The operand with its kind, for inspection. -/
def inspect (operand : Operand) : String :=
  "Operand(" ++ operand.kind.text ++ ", " ++ operand.value.quoted ++ ")"

end Operand

end BlockTally
