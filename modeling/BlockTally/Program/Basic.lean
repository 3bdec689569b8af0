import BlockTally.Arena
import BlockTally.Program.Instruction

/-! Programs: a module together with the instructions, blocks and functions it is made of.

Instructions, blocks and functions are named, so that a module, a block and an analysis can refer to the
same instruction. A thing keeps its name when it is taken out of the module.
-/

set_option autoImplicit false

namespace BlockTally

structure InstRef where
  index : Nat
  deriving DecidableEq, Repr, Inhabited

structure BlockRef where
  index : Nat
  deriving DecidableEq, Repr, Inhabited

structure FuncRef where
  index : Nat
  deriving DecidableEq, Repr, Inhabited

/-- An instruction with the block it was last put into, as the instruction itself records it. -/
structure Placed where
  instruction : Instruction
  block : Option BlockRef := none
  deriving DecidableEq, Repr, Inhabited

/-- A label followed by instructions; the label is not part of the body. -/
structure Block where
  label : InstRef
  function : Option FuncRef := none
  body : List InstRef := []
  deriving DecidableEq, Repr, Inhabited

structure Function where
  definition : InstRef
  parameters : List InstRef := []
  blocks : List BlockRef := []
  endMark : InstRef
  /-- Whether the function was ever added to the module. -/
  added : Bool := false
  deriving DecidableEq, Repr, Inhabited

/-- The lists of a module outside of its functions, in layout order. -/
inductive Section where
  | capabilities | extensions | extInstImports | entryPoints | executionModes
  | debugs1 | debugs2 | debugs3 | annotations | typesValues
  deriving DecidableEq, Repr, Inhabited

namespace Section

def all : List Section :=
  [capabilities, extensions, extInstImports, entryPoints, executionModes, debugs1, debugs2, debugs3,
   annotations, typesValues]

theorem mem_all (place : Section) : place ∈ all := by
  cases place <;> decide

def title : Section → String
  | capabilities => "capabilities"
  | extensions => "extensions"
  | extInstImports => "ext_inst_imports"
  | entryPoints => "entry_points"
  | executionModes => "execution_modes"
  | debugs1 => "debugs1"
  | debugs2 => "debugs2"
  | debugs3 => "debugs3"
  | annotations => "annotations"
  | typesValues => "types_values"

def ofTitle? (title : String) : Option Section :=
  all.find? fun place => place.title = title

end Section

structure Module where
  version : Int := Version.v1_0
  /-- The next free id: every id handed out is smaller. -/
  idBound : Int := 1
  generator : Int := 0
  memoryModel : Option InstRef := none
  capabilities : List InstRef := []
  extensions : List InstRef := []
  extInstImports : List InstRef := []
  entryPoints : List InstRef := []
  executionModes : List InstRef := []
  debugs1 : List InstRef := []
  debugs2 : List InstRef := []
  debugs3 : List InstRef := []
  annotations : List InstRef := []
  typesValues : List InstRef := []
  functions : List FuncRef := []
  deriving DecidableEq, Repr, Inhabited

namespace Module

def list (m : Module) : Section → List InstRef
  | .capabilities => m.capabilities
  | .extensions => m.extensions
  | .extInstImports => m.extInstImports
  | .entryPoints => m.entryPoints
  | .executionModes => m.executionModes
  | .debugs1 => m.debugs1
  | .debugs2 => m.debugs2
  | .debugs3 => m.debugs3
  | .annotations => m.annotations
  | .typesValues => m.typesValues

def setList (m : Module) (place : Section) (refs : List InstRef) : Module :=
  match place with
  | .capabilities => { m with capabilities := refs }
  | .extensions => { m with extensions := refs }
  | .extInstImports => { m with extInstImports := refs }
  | .entryPoints => { m with entryPoints := refs }
  | .executionModes => { m with executionModes := refs }
  | .debugs1 => { m with debugs1 := refs }
  | .debugs2 => { m with debugs2 := refs }
  | .debugs3 => { m with debugs3 := refs }
  | .annotations => { m with annotations := refs }
  | .typesValues => { m with typesValues := refs }

theorem list_setList (m : Module) (place other : Section) (refs : List InstRef) :
    (m.setList place refs).list other = if place = other then refs else m.list other := by
  cases place <;> cases other <;> rfl

/-- The instructions outside of functions, in layout order. -/
def globals (m : Module) : List InstRef :=
  m.capabilities ++ m.extensions ++ m.extInstImports ++ m.memoryModel.toList ++ m.entryPoints ++
    m.executionModes ++ m.debugs1 ++ m.debugs2 ++ m.debugs3 ++ m.annotations ++ m.typesValues

end Module

structure Program where
  instructions : Arena Placed := {}
  blocks : Arena Block := {}
  functions : Arena Function := {}
  module : Module := {}
  deriving DecidableEq, Repr, Inhabited

namespace Program

def inst (p : Program) (r : InstRef) : Instruction :=
  (p.instructions.get r.index).instruction

/-- The block that an instruction records as its own. -/
def blockOf? (p : Program) (r : InstRef) : Option BlockRef :=
  (p.instructions.get r.index).block

def block (p : Program) (b : BlockRef) : Block :=
  p.blocks.get b.index

def function (p : Program) (f : FuncRef) : Function :=
  p.functions.get f.index

def body (p : Program) (b : BlockRef) : List InstRef :=
  (p.block b).body

/-- A block is known by the id of its label. -/
def blockId (p : Program) (b : BlockRef) : Id :=
  (p.inst (p.block b).label).resultId

def functionId (p : Program) (f : FuncRef) : Id :=
  (p.inst (p.function f).definition).resultId

/-- The block a function starts with. -/
def entryBlock? (p : Program) (f : FuncRef) : Option BlockRef :=
  (p.function f).blocks.head?

/-- The instructions inside the blocks of a function. -/
def functionBody (p : Program) (f : FuncRef) : List InstRef :=
  (p.function f).blocks.flatMap p.body

/-- All instructions of a function in layout order. -/
def functionInsts (p : Program) (f : FuncRef) : List InstRef :=
  let function := p.function f
  function.definition :: function.parameters ++
    function.blocks.flatMap (fun b => (p.block b).label :: p.body b) ++ [function.endMark]

/-- All instructions of the module in layout order. -/
def allInsts (p : Program) : List InstRef :=
  p.module.globals ++ p.module.functions.flatMap p.functionInsts

/-- The called ids of a function, in order of appearance. -/
def callees (p : Program) (f : FuncRef) : Except Error (List Value) :=
  ((p.functionBody f).filter fun r => (p.inst r).opcode = .functionCall).mapM fun r => (p.inst r).value 0

/-- The first function of the module with the given id. -/
def functionNamed? (p : Program) (id : Value) : Option FuncRef :=
  p.module.functions.find? fun f => Value.int (p.functionId f) = id

/-- The functions that the entry points start with, in declaration order. -/
def entryIds (p : Program) : Except Error (List Value) :=
  p.module.entryPoints.mapM fun r => (p.inst r).value 1

end Program

end BlockTally
