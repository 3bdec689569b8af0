import BlockTally.Program.Insertion

/-! The rules of form of a module.

Result ids are unique and inside the bound, used ids are defined somewhere, entry points name functions,
every function has blocks, and every block ends with its only terminator and keeps variables at the start
of the entry block. The checks report the first breach in layout order.
-/

set_option autoImplicit false

namespace BlockTally.Program

/-- Check one result id against those defined before it, and add it to them. -/
def checkDefinition (p : Program) (defined : List Value) (r : InstRef) : Except Error (List Value) :=
  let i := p.inst r
  if !i.hasResult then .ok defined
  else if (Value.int i.resultId) ∈ defined then .error (.illFormed (.idDefinedTwice i.resultId))
  else if 0 < i.resultId ∧ i.resultId < p.module.idBound then .ok (.int i.resultId :: defined)
  else .error (.illFormed (.idOutsideBound i.resultId p.module.idBound))

/-- The result ids of the module, if they are unique and inside the bound. -/
def definitions (p : Program) : Except Error (List Value) :=
  p.allInsts.foldlM p.checkDefinition []

def checkUses (p : Program) (defined : List Value) (r : InstRef) : Except Error Unit :=
  (p.inst r).usedIds.forM fun id =>
    if id ∈ defined then .ok () else .error (.illFormed (.undefinedUse (p.inst r).text id))

def checkEntryPoint (p : Program) (r : InstRef) : Except Error Unit := do
  let id ← (p.inst r).value 1
  if (p.functionNamed? id).isNone then
    throw (.illFormed (.entryPointWithoutFunction (p.inst r).text))

def checkTermination (p : Program) (b : BlockRef) : Except Error Unit :=
  if (p.body b).isEmpty then .error (.illFormed (.emptyBlock (p.blockId b)))
  else if !p.isClosed b then .error (.illFormed (.unterminatedBlock (p.blockId b)))
  else if (p.body b).dropLast.any fun r => (p.inst r).isTerminator then
    .error (.illFormed (.earlyTerminator (p.blockId b)))
  else .ok ()

/-- Check the rest of a body; variables are allowed until the first other instruction. -/
def checkBody (p : Program) (b : BlockRef) : Bool → List InstRef → Except Error Unit
  | _, [] => .ok ()
  | variablesAllowed, r :: rest =>
    if p.blockOf? r ≠ some b then .error (.fault .inconsistent)
    else if (p.inst r).opcode = .label then .error (.illFormed (.labelInBlock (p.blockId b)))
    else if (p.inst r).opcode = .var then
      -- A variable does not end the run of variables that it stands in.
      if variablesAllowed then checkBody p b true rest
      else .error (.illFormed (.misplacedVariable (p.inst r).text (p.blockId b)))
    else checkBody p b false rest

def checkBlock (p : Program) (f : FuncRef) (b : BlockRef) : Except Error Unit := do
  if (p.block b).function ≠ some f then
    throw (.fault .inconsistent)
  p.checkTermination b
  p.checkBody b (p.entryBlock? f = some b) (p.body b)

def checkFunction (p : Program) (f : FuncRef) : Except Error Unit := do
  if (p.function f).blocks.isEmpty then
    throw (.illFormed (.functionWithoutBlocks (p.functionId f)))
  (p.function f).blocks.forM (p.checkBlock f)

def validate (p : Program) : Except Error Unit := do
  let defined ← p.definitions
  p.allInsts.forM (p.checkUses defined)
  p.module.entryPoints.forM p.checkEntryPoint
  p.module.functions.forM p.checkFunction

end BlockTally.Program
