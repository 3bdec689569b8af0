import BlockTally.Change
import BlockTally.Position
import BlockTally.Program.Basic

/-! Edits of a program.

An instruction records the block it was last put into. Blocks and instructions are given out by name, so
an edit of one is seen wherever it is listed.
-/

set_option autoImplicit false

namespace BlockTally

abbrev Edit := Change Program

namespace Program

def changeInst (p : Program) (r : InstRef) (change : Instruction → Instruction) : Program :=
  { p with instructions := p.instructions.update r.index fun placed =>
      { placed with instruction := change placed.instruction } }

/-- Record that an instruction is in a block, or in none. -/
def place (p : Program) (r : InstRef) (b : Option BlockRef) : Program :=
  { p with instructions := p.instructions.update r.index fun placed => { placed with block := b } }

def changeBlock (p : Program) (b : BlockRef) (change : Block → Block) : Program :=
  { p with blocks := p.blocks.update b.index change }

def changeFunction (p : Program) (f : FuncRef) (change : Function → Function) : Program :=
  { p with functions := p.functions.update f.index change }

/-- Take the next id below the bound's limit. -/
def takeId : Edit Id := do
  let p ← get
  if maxIdBound ≤ p.module.idBound then
    throw .idsExhausted
  set { p with module := { p.module with idBound := p.module.idBound + 1 } }
  return p.module.idBound

/-- Make an instruction that is in no block and in no list. -/
def newInst (i : Instruction) : Edit InstRef :=
  modifyGet fun p => (⟨p.instructions.size⟩, { p with instructions := p.instructions.push { instruction := i } })

def append (place : Section) (r : InstRef) : Edit Unit :=
  modify fun p => { p with module := p.module.setList place (p.module.list place ++ [r]) }

/-- Make an instruction and list it at the end of a section. -/
def declare (place : Section) (i : Instruction) : Edit InstRef := do
  let r ← newInst i
  append place r
  return r

/-- Take an entry out of a section. -/
def removeGlobal (place : Section) (position : Int) : Edit InstRef := do
  let refs := (← get).module.list place
  match (Position.index? refs.length position).bind fun i => refs[i]?.map (i, ·) with
  | none => throw (.fault .missingEntry)
  | some (i, r) =>
    modify fun p => { p with module := p.module.setList place (refs.eraseIdx i) }
    return r

def newBlock (label : InstRef) : Edit BlockRef := do
  unless ((← get).inst label).opcode = .label do
    throw (.fault .inconsistent)
  modifyGet fun p => (⟨p.blocks.size⟩, { p with blocks := p.blocks.push { label } })

def newFunction (definition : InstRef) : Edit FuncRef := do
  unless ((← get).inst definition).opcode = .function do
    throw (.fault .inconsistent)
  let endMark ← newInst { opcode := .functionEnd }
  modifyGet fun p => (⟨p.functions.size⟩, { p with functions := p.functions.push { definition, endMark } })

def addParameter (f : FuncRef) (parameter : InstRef) : Edit Unit := do
  unless ((← get).inst parameter).opcode = .functionParameter do
    throw (.fault .inconsistent)
  modify fun p => p.changeFunction f fun function =>
    { function with parameters := function.parameters ++ [parameter] }

def addBlock (f : FuncRef) (b : BlockRef) : Edit Unit :=
  modify fun p => (p.changeBlock b fun block => { block with function := some f }).changeFunction f
    fun function => { function with blocks := function.blocks ++ [b] }

/-- Take a block out of a function; the block does not forget the function. -/
def removeBlock (f : FuncRef) (position : Int) : Edit Unit := do
  match Position.index? ((← get).function f).blocks.length position with
  | none => throw (.fault .missingEntry)
  | some i => modify fun p => p.changeFunction f fun function =>
      { function with blocks := function.blocks.eraseIdx i }

def addFunction (f : FuncRef) : Edit Unit :=
  modify fun p =>
    ({ p with module := { p.module with functions := p.module.functions ++ [f] } }).changeFunction f
      fun function => { function with added := true }

def removeFunction (position : Int) : Edit Unit := do
  match Position.index? (← get).module.functions.length position with
  | none => throw (.fault .missingEntry)
  | some i => modify fun p =>
      { p with module := { p.module with functions := p.module.functions.eraseIdx i } }

/-- Put an instruction at the end of a block. -/
def addInst (b : BlockRef) (r : InstRef) : Edit Unit :=
  modify fun p => (p.place r (some b)).changeBlock b fun block => { block with body := block.body ++ [r] }

/-- Put instructions in order into a gap of a block. -/
def insertInsts (b : BlockRef) (gap : Nat) (refs : List InstRef) : Edit Unit :=
  modify fun p => (refs.foldl (fun p r => p.place r (some b)) p).changeBlock b fun block =>
    { block with body := block.body.take gap ++ refs ++ block.body.drop gap }

/-- Put instructions in order before the instruction at a position. -/
def insertAt (b : BlockRef) (position : Int) (refs : List InstRef) : Edit Unit := do
  insertInsts b (Position.gap ((← get).body b).length position) refs

/-- Take the first occurrence of an instruction out of a block. The instruction forgets its block in any
case, also if it was in another one. -/
def removeInst (b : BlockRef) (r : InstRef) : Edit Unit := do
  modify fun p => p.place r none
  -- From here on the instruction has no block, whatever comes of the removal.
  unless ((← get).body b).contains r do
    throw (.fault .notInBlock)
  modify fun p => p.changeBlock b fun block => { block with body := block.body.erase r }

def addOperand (r : InstRef) (operand : Operand) : Edit Unit :=
  modify fun p => p.changeInst r fun i => { i with operands := i.operands ++ [operand] }

def setOperand (r : InstRef) (position : Int) (operand : Operand) : Edit Unit := do
  match Position.index? ((← get).inst r).operands.length position with
  | none => throw (.fault .missingEntry)
  | some place => modify fun p => p.changeInst r fun i => { i with operands := i.operands.set place operand }

/-- Drop the last operand. -/
def popOperand (r : InstRef) : Edit Unit := do
  if ((← get).inst r).operands.isEmpty then
    throw (.fault .missingEntry)
  modify fun p => p.changeInst r fun i => { i with operands := i.operands.dropLast }

def setIds (r : InstRef) (typeId resultId : Id) : Edit Unit :=
  modify fun p => p.changeInst r fun i => { i with typeId, resultId }

end Program

end BlockTally
