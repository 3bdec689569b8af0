import BlockTally.Counter.Buffer

/-! The instructions that count one execution of a block.

The address of the counter is computed first. The counter is then incremented in one atomic step, or it is
loaded, incremented and stored, which can lose counts when invocations run at the same time.
-/

set_option autoImplicit false

namespace BlockTally

namespace Increment

/-- The address of a counter: of the buffer, the member and in it the element. -/
def address (pointerType pointer buffer member index : Id) : Instruction where
  opcode := .accessChain
  typeId := pointerType
  resultId := pointer
  operands := [.ofId (.int buffer), .ofId (.int member), .ofId (.int index)]

def atomicAdd (counterType result pointer scope semantics one : Id) : Instruction where
  opcode := .atomicIAdd
  typeId := counterType
  resultId := result
  operands := [.ofId (.int pointer), ⟨.scopeId, .int scope⟩, ⟨.memorySemanticsId, .int semantics⟩,
    .ofId (.int one)]

def loadAddStore (counterType value sum pointer one : Id) : List Instruction :=
  [{ opcode := .load, typeId := counterType, resultId := value, operands := [.ofId (.int pointer)] },
   { opcode := .iAdd, typeId := counterType, resultId := sum
     operands := [.ofId (.int value), .ofId (.int one)] },
   { opcode := .store, operands := [.ofId (.int pointer), .ofId (.int sum)] }]

end Increment

namespace Job

/-- The instructions after the address that add one to the counter there. -/
def addOne (atomic : Bool) (counterType pointer one : Id) : Provision (List Instruction) := do
  if atomic then
    let scope ← Workspace.uintConstantId (.int Scope.device) (.int 32)
    let semantics ← Workspace.uintConstantId (.int MemorySemantics.relaxed) (.int 32)
    let result ← Program.takeId
    return [Increment.atomicAdd counterType result pointer scope semantics one]
  else
    let value ← Program.takeId
    let sum ← Program.takeId
    return Increment.loadAddStore counterType value sum pointer one

/-- Make the instructions that increment a counter. They are not put into a block yet. -/
def increment (atomic : Bool) (traceIndex : Int) : Provision (List InstRef) := do
  -- Declarations that cannot be read are met here, before the buffer is added to the module.
  discard <| Workspace.needConstants
  let buffer ← bufferId
  let pointerType ← pointerTypeId
  let counterType ← counterTypeId
  let member ← Workspace.uintConstantId (.int 0) (.int 32)
  let index ← Workspace.uintConstantId (.int traceIndex) (.int 32)
  let one ← Workspace.uintConstantId (.int 1) (.int (← get).buffer.width)
  let pointer ← Program.takeId
  let address := Increment.address pointerType pointer buffer member index
  let rest ← addOne atomic counterType pointer one
  let refs ← (address :: rest).mapM fun i => Program.newInst i
  refs.forM fun r => Workspace.record r
  return refs

end Job

end BlockTally
