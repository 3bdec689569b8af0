import BlockTally.Workspace.Constants

/-! The storage buffer that holds the counters.

The buffer is a structure with one member, a runtime array of unsigned integers. It is declared, named and
bound when it is first asked for; whatever of it is already declared in the module is used again.
-/

set_option autoImplicit false

namespace BlockTally

structure CounterBuffer where
  /-- Counters have 64 bits instead of 32. -/
  wide : Bool := false
  /-- The buffer variable, 0 until it is declared. -/
  variableId : Id := 0
  /-- The type of pointers to one counter, 0 until it is asked for. -/
  pointerTypeId : Id := 0
  /-- Buffer types that nothing was seen to use. -/
  unusedTypes : List Id := []
  deriving DecidableEq, Repr, Inhabited

namespace CounterBuffer

def descriptorSet : Int := 5

def binding : Int := 1

def typeName : String := "BasicBlockTraceBuffer"

def memberName : String := "counters"

def variableName : String := "basic_block_trace_buffer"

def width (b : CounterBuffer) : Int :=
  if b.wide then 64 else 32

/-- The size of a counter in bytes. -/
def stride (b : CounterBuffer) : Int :=
  if b.wide then 8 else 4

def counterType (b : CounterBuffer) : Ty :=
  .uint b.width

def arrayType (b : CounterBuffer) : Ty :=
  .wrap .runtimeArray b.counterType [[.int Decoration.arrayStride, .int b.stride]]

def bufferType (b : CounterBuffer) : Ty :=
  .struct [b.arrayType] [[.int 0, .int Decoration.offset, .int 0]] [[.int Decoration.block]]

def anomalies (b : CounterBuffer) : List String :=
  b.unusedTypes.map fun (id : Id) => "Trace buffer type " ++ idText id ++ " has no uses"

theorem width_eq_stride (b : CounterBuffer) : b.width = 8 * b.stride := by
  cases wide : b.wide <;> simp [width, stride, wide]

end CounterBuffer

/-- A workspace with the counter buffer that is being provided in it. -/
structure Job where
  workspace : Workspace := {}
  buffer : CounterBuffer := {}
  deriving Inhabited

abbrev Provision := Change Job

namespace Workspace

/-- Whether one of the debug instructions names the target. -/
def anyNames (p : Program) (target : Value) : List InstRef → Except Error Bool
  | [] => .ok false
  | r :: rest => do
    if (p.inst r).opcode = .name then
      if (← (p.inst r).value 0) = target then
        return true
    anyNames p target rest

/-- Name the buffer, and its type if that has no name yet. -/
def addBufferNames (bufferType buffer : Value) : Action Unit := do
  let p := (← get).program
  unless (← anyNames p bufferType p.module.debugs2) do
    addName (← Program.newInst
      { opcode := .name, operands := [.ofId bufferType, .string (.str CounterBuffer.typeName)] })
    addName (← Program.newInst
      { opcode := .memberName
        operands := [.ofId bufferType, .literal (.int 0), .string (.str CounterBuffer.memberName)] })
  addName (← Program.newInst
    { opcode := .name, operands := [.ofId buffer, .string (.str CounterBuffer.variableName)] })

def provideExtension : Action Unit := do
  let features ← needFeatures
  unless features.hasExtension (← get).program (.str storageBufferExtension) do
    addExtension (.str storageBufferExtension)

def provideCapability (capability : Int) : Action Unit := do
  unless (← needFeatures).hasCapability (.int capability) do
    addCapability (.int capability)

/-- The capabilities that wide counters need. -/
def provideWideCounters : Action Unit := do
  provideCapability Capability.int64
  provideCapability Capability.int64Atomics

/-- List a global variable in the interfaces of the entry points, where the version wants all of them
listed: before version 1.4 an interface has only inputs and outputs. -/
def extendInterfaces (id : Id) : Action Unit := do
  let m := (← get).program.module
  if Version.v1_4 ≤ m.version then
    m.entryPoints.forM fun r => do
      Program.addOperand r (.ofId (.int id))
      recordUses r

/-- Declare a global variable in the storage buffer class. -/
def declareBufferVariable (pointerType : Id) : Action Id := do
  let id ← Program.takeId
  addGlobal (← Program.newInst
    { opcode := .var, typeId := pointerType, resultId := id
      operands := [⟨.storageClass, .int StorageClass.storageBuffer⟩] })
  return id

end Workspace

namespace Job

instance : MonadLift (EStateM Error Workspace) (EStateM Error Job) where
  monadLift := Change.within Job.workspace fun j w => { j with workspace := w }

def changeBuffer (change : CounterBuffer → CounterBuffer) : Provision Unit :=
  modify fun j => { j with buffer := change j.buffer }

def counterTypeId : Provision Id := do
  Workspace.typeId (← get).buffer.counterType

/-- Declare the buffer with all that belongs to it. -/
def declareBuffer : Provision Id := do
  let b := (← get).buffer
  let bufferType ← Workspace.typeId b.bufferType
  -- The decorations of the structure are uses of it, so an unused one was overlooked by the index.
  if (← Workspace.needUses).usesOf (.int bufferType) = [] then
    changeBuffer fun b => { b with unusedTypes := b.unusedTypes ++ [bufferType] }
  let pointerType ← Workspace.pointerId (.int bufferType) (.int StorageClass.storageBuffer)
  let id ← Workspace.declareBufferVariable pointerType
  Workspace.addBufferNames (.int bufferType) (.int id)
  discard <| Workspace.decorate (.int id) [.int Decoration.descriptorSet, .int CounterBuffer.descriptorSet]
  discard <| Workspace.decorate (.int id) [.int Decoration.binding, .int CounterBuffer.binding]
  Workspace.provideExtension
  if b.wide then
    Workspace.provideWideCounters
  Workspace.extendInterfaces id
  return id

/-- The buffer variable, declared on the first request. -/
def bufferId : Provision Id := do
  let b := (← get).buffer
  if b.variableId ≠ 0 then
    return b.variableId
  let id ← declareBuffer
  changeBuffer fun b => { b with variableId := id }
  return id

/-- The type of pointers to one counter, looked up on the first request. -/
def pointerTypeId : Provision Id := do
  let b := (← get).buffer
  if b.pointerTypeId ≠ 0 then
    return b.pointerTypeId
  let counterType ← counterTypeId
  let id ← Workspace.pointerId (.int counterType) (.int StorageClass.storageBuffer)
  changeBuffer fun b => { b with pointerTypeId := id }
  return id

end Job

end BlockTally
