import BlockTally.Program.Edit

/-! Drafts: a program under construction, with a cursor that tells where to write.

Ids are taken from the bound of the module. Types, constants and global variables go into the module,
all other instructions to the end of the block at the cursor. An id that was taken for an instruction
stays taken when the instruction cannot be placed.
-/

set_option autoImplicit false

namespace BlockTally

structure Cursor where
  /-- Whether the module is being written to. -/
  attached : Bool := true
  function : Option FuncRef := none
  block : Option BlockRef := none
  deriving DecidableEq, Repr, Inhabited

structure Draft where
  program : Program := {}
  cursor : Cursor := {}
  deriving DecidableEq, Repr, Inhabited

abbrev Drafting := Change Draft

namespace Draft

instance : MonadLift (EStateM Error Program) (EStateM Error Draft) where
  monadLift := Change.within Draft.program fun d p => { d with program := p }

/-! ### The cursor -/

/-- Leave the module, the function and the block. -/
def leave : Drafting Unit :=
  modify fun d => { d with cursor := { attached := false } }

def attach : Drafting Unit :=
  modify fun d => { d with cursor := { d.cursor with attached := true } }

/-- Go to a function and there to its entry block. -/
def setFunction (f : Option FuncRef) : Drafting Unit :=
  modify fun d => { d with cursor := { d.cursor with function := f, block := f.bind d.program.entryBlock? } }

def setBlock (b : Option BlockRef) : Drafting Unit :=
  modify fun d => { d with cursor := { d.cursor with block := b } }

def needModule : Drafting Unit := do
  unless (← get).cursor.attached do
    throw (.fault .detached)

def functionId (f : Option FuncRef) : Drafting Id := do
  return (← get).program.functionId (← present f)

def blockId (b : Option BlockRef) : Drafting Id := do
  return (← get).program.blockId (← present b)

/-! ### Module level instructions -/

def list (place : Section) (i : Instruction) : Drafting InstRef := do
  needModule
  Program.declare place i

def capability (capability : Value) : Drafting Unit := do
  needModule
  let number ← capability.number
  discard <| list .capabilities { opcode := .capability, operands := [⟨.capability, .int number⟩] }

def extension (name : Value) : Drafting Unit :=
  discard <| list .extensions { opcode := .extension, operands := [.string name] }

def memoryModel (addressing memory : Value) : Drafting Unit := do
  let operands := [⟨.addressingModel, .int (← addressing.number)⟩, ⟨.memoryModel, .int (← memory.number)⟩]
  needModule
  let r ← Program.newInst { opcode := .memoryModel, operands }
  modify fun d =>
    { d with program := { d.program with module := { d.program.module with memoryModel := some r } } }

/-- Make a function an entry point that reads and writes the given global variables. -/
def entryPoint (model : Value) (f : Option FuncRef) (name : Value) (interface : List Value) : Drafting InstRef := do
  let number ← model.number
  let id ← functionId f
  list .entryPoints
    { opcode := .entryPoint
      operands := [⟨.executionModel, .int number⟩, .ofId (.int id), .string name] ++ interface.map .ofId }

def executionMode (f : Option FuncRef) (mode : Value) (values : List Value) : Drafting Unit := do
  let id ← functionId f
  let number ← mode.number
  discard <| list .executionModes
    { opcode := .executionMode
      operands := [.ofId (.int id), ⟨.executionMode, .int number⟩] ++ values.map .literal }

def name (target name : Value) : Drafting Unit :=
  discard <| list .debugs2 { opcode := .name, operands := [.ofId target, .string name] }

def memberName (target member name : Value) : Drafting Unit :=
  discard <| list .debugs2 { opcode := .memberName, operands := [.ofId target, .literal member, .string name] }

def decorate (target decoration : Value) (values : List Value) : Drafting Unit := do
  let number ← decoration.number
  discard <| list .annotations
    { opcode := .decorate, operands := [.ofId target, ⟨.decoration, .int number⟩] ++ values.map .literal }

def memberDecorate (target member decoration : Value) (values : List Value) : Drafting Unit := do
  let number ← decoration.number
  discard <| list .annotations
    { opcode := .memberDecorate
      operands := [.ofId target, .literal member, ⟨.decoration, .int number⟩] ++ values.map .literal }

/-! ### Types, constants and global variables -/

/-- Add a declaration to the module; its id is taken first. -/
def declare (opcode : Opcode) (operands : List Operand := []) (typeId : Id := 0) : Drafting Id := do
  let id ← Program.takeId
  discard <| list .typesValues { opcode, typeId, resultId := id, operands }
  return id

def typeVoid : Drafting Id := declare .typeVoid

def typeBool : Drafting Id := declare .typeBool

def typeInt (width signed : Value) : Drafting Id := do
  declare .typeInt [.literal width, .literal (.int (← signed.number))]

def typeFloat (width : Value) : Drafting Id := declare .typeFloat [.literal width]

def typeVector (component count : Value) : Drafting Id := declare .typeVector [.ofId component, .literal count]

def typeArray (element length : Value) : Drafting Id := declare .typeArray [.ofId element, .ofId length]

def typeRuntimeArray (element : Value) : Drafting Id := declare .typeRuntimeArray [.ofId element]

def typeStruct (members : List Value) : Drafting Id := declare .typeStruct (members.map .ofId)

def typePointer (storage pointee : Value) : Drafting Id := do
  declare .typePointer [⟨.storageClass, .int (← storage.number)⟩, .ofId pointee]

def typeFunction (result : Value) (parameters : List Value) : Drafting Id :=
  declare .typeFunction (.ofId result :: parameters.map .ofId)

def constant (typeId : Id) (value : Value) : Drafting Id :=
  declare .constant [⟨.literalNumber, value⟩] typeId

def constantTrue (typeId : Id) : Drafting Id := declare .constantTrue [] typeId

/-- Declare a global variable. -/
def globalVariable (pointerType : Id) (storage : Value) : Drafting Id := do
  declare .var [⟨.storageClass, .int (← storage.number)⟩] pointerType

/-! ### Functions and blocks -/

/-- Start a new function and go to it. -/
def newFunction (returnType : Id) (functionType control : Value) : Drafting FuncRef := do
  unless (← get).cursor.attached do
    throw (.fault .inconsistent)
  let id ← Program.takeId
  let number ← control.number
  let definition ← Program.newInst
    { opcode := .function, typeId := returnType, resultId := id
      operands := [⟨.functionControl, .int number⟩, .ofId functionType] }
  let f ← Program.newFunction definition
  Program.addFunction f
  setFunction (some f)
  return f

def newParameter (typeId : Id) : Drafting Id := do
  let id ← Program.takeId
  let parameter ← Program.newInst { opcode := .functionParameter, typeId, resultId := id }
  Program.addParameter (← present (← get).cursor.function) parameter
  return id

/-- Add an empty block to the function at the cursor; the cursor stays where it is. -/
def newBlock : Drafting BlockRef := do
  match (← get).cursor.function with
  | none => throw (.fault .inconsistent)
  | some f =>
    let id ← Program.takeId
    let b ← Program.newBlock (← Program.newInst { opcode := .label, resultId := id })
    Program.addBlock f b
    return b

/-! ### Instructions of the block at the cursor -/

def emit (r : InstRef) : Drafting Unit := do
  match (← get).cursor.block with
  | none => throw (.fault .inconsistent)
  | some b => Program.addInst b r

def emitInst (i : Instruction) : Drafting Unit := do
  emit (← Program.newInst i)

/-- Emit an instruction with a result. -/
def emitResult (opcode : Opcode) (typeId : Id) (operands : List Operand) : Drafting Id := do
  let id ← Program.takeId
  emitInst { opcode, typeId, resultId := id, operands }
  return id

def emitValue (opcode : Opcode) (typeId : Id) (operandIds : List Value) : Drafting Id :=
  emitResult opcode typeId (operandIds.map .ofId)

/-- Emit a variable of the function. -/
def emitVariable (pointerType : Id) : Drafting Id :=
  emitResult .var pointerType [⟨.storageClass, .int StorageClass.function⟩]

def emitLoad (typeId : Id) (pointer : Value) : Drafting Id := emitValue .load typeId [pointer]

def emitStore (pointer value : Value) : Drafting Unit :=
  emitInst { opcode := .store, operands := [.ofId pointer, .ofId value] }

def emitAdd (typeId : Id) (a b : Value) : Drafting Id := emitValue .iAdd typeId [a, b]

def emitCall (returnType : Id) (f : Option FuncRef) (arguments : List Value) : Drafting Id := do
  emitValue .functionCall returnType (.int (← functionId f) :: arguments)

def emitSelectionMerge (merge : Option BlockRef) : Drafting Unit := do
  emitInst
    { opcode := .selectionMerge
      operands := [.ofId (.int (← blockId merge)), ⟨.selectionControl, .int SelectionControl.none⟩] }

def emitBranch (target : Option BlockRef) : Drafting Unit := do
  emitInst { opcode := .branch, operands := [.ofId (.int (← blockId target))] }

def emitBranchConditional (condition : Value) (onTrue onFalse : Option BlockRef) : Drafting Unit := do
  emitInst
    { opcode := .branchConditional
      operands := [.ofId condition, .ofId (.int (← blockId onTrue)), .ofId (.int (← blockId onFalse))] }

def emitReturn : Drafting Unit := emitInst { opcode := .ret }

def emitReturnValue (value : Value) : Drafting Unit :=
  emitInst { opcode := .retValue, operands := [.ofId value] }

end Draft

end BlockTally
