import BlockTally.Grammar.Enumerants
import BlockTally.Grammar.Opcode

/-! The kinds of operands: ids, literals and members of an enumeration. -/

set_option autoImplicit false

namespace BlockTally

inductive OperandKind where
  | id | scopeId | memorySemanticsId
  | literalInteger | literalNumber | literalString
  | storageClass | decoration | capability | executionModel | executionMode | addressingModel
  | memoryModel | functionControl | selectionControl | loopControl
  deriving DecidableEq, Repr, Inhabited

namespace OperandKind

def all : List OperandKind :=
  [id, scopeId, memorySemanticsId, literalInteger, literalNumber, literalString, storageClass, decoration,
   capability, executionModel, executionMode, addressingModel, memoryModel, functionControl, selectionControl,
   loopControl]

theorem mem_all (kind : OperandKind) : kind ∈ all := by
  cases kind <;> decide

def text : OperandKind → String
  | id => "ID"
  | scopeId => "SCOPE_ID"
  | memorySemanticsId => "MEMORY_SEMANTICS_ID"
  | literalInteger => "LITERAL_INTEGER"
  | literalNumber => "LITERAL_NUMBER"
  | literalString => "LITERAL_STRING"
  | storageClass => "STORAGE_CLASS"
  | decoration => "DECORATION"
  | capability => "CAPABILITY"
  | executionModel => "EXECUTION_MODEL"
  | executionMode => "EXECUTION_MODE"
  | addressingModel => "ADDRESSING_MODEL"
  | memoryModel => "MEMORY_MODEL"
  | functionControl => "FUNCTION_CONTROL"
  | selectionControl => "SELECTION_CONTROL"
  | loopControl => "LOOP_CONTROL"

def code : OperandKind → Int
  | id => 1
  | scopeId => 2
  | memorySemanticsId => 3
  | literalInteger => 10
  | literalNumber => 11
  | literalString => 12
  | storageClass => 20
  | decoration => 21
  | capability => 22
  | executionModel => 23
  | executionMode => 24
  | addressingModel => 25
  | memoryModel => 26
  | functionControl => 27
  | selectionControl => 28
  | loopControl => 29

def table : Enumeration where
  title := "OperandKind"
  members := all.map fun kind => (kind.text, kind.code)

def ofName? (name : String) : Option OperandKind :=
  all.find? fun kind => kind.text = name

/-- Whether operands of the kind refer to a result id. -/
def isId : OperandKind → Bool
  | id | scopeId | memorySemanticsId => true
  | _ => false

/-- The enumeration that names the values of the kind. -/
def enumeration? : OperandKind → Option Enumeration
  | storageClass => some StorageClass.table
  | decoration => some Decoration.table
  | capability => some Capability.table
  | executionModel => some ExecutionModel.table
  | executionMode => some ExecutionMode.table
  | addressingModel => some AddressingModel.table
  | memoryModel => some MemoryModel.table
  | functionControl => some FunctionControl.table
  | selectionControl => some SelectionControl.table
  | loopControl => some LoopControl.table
  | _ => none

end OperandKind

/-- Every enumeration of the instruction set. -/
def enumerations : List Enumeration :=
  [Opcode.table, StorageClass.table, Decoration.table, Capability.table, ExecutionModel.table,
   ExecutionMode.table, AddressingModel.table, MemoryModel.table, FunctionControl.table,
   SelectionControl.table, LoopControl.table, Scope.table, MemorySemantics.table, OperandKind.table]

end BlockTally
