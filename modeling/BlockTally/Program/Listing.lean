import BlockTally.Program.Validity

/-! Programs as text: a header, then one instruction on each line, in layout order. -/

set_option autoImplicit false

namespace BlockTally.Program

/-- Each line ends with a line feed. -/
def linesText (lines : List String) : String :=
  String.join (lines.map (· ++ "\n"))

def instText (p : Program) (r : InstRef) : String :=
  (p.inst r).text

def header (p : Program) : List String :=
  let (major, minor) := Version.numbers p.module.version
  ["; SPIR-V", "; Version: " ++ toString major ++ "." ++ toString minor,
   "; Bound: " ++ toString p.module.idBound]

def blockLines (p : Program) (b : BlockRef) : List String :=
  p.instText (p.block b).label :: (p.body b).map fun r => "  " ++ p.instText r

/-- A function with an empty line before it. -/
def functionLines (p : Program) (f : FuncRef) : List String :=
  let function := p.function f
  "" :: (function.definition :: function.parameters).map p.instText ++ function.blocks.flatMap p.blockLines ++
    [p.instText function.endMark]

def lines (p : Program) : List String :=
  p.header ++ p.module.globals.map p.instText ++ p.module.functions.flatMap p.functionLines

/-- The listing of a module, every line behind the same margin. -/
def listing (p : Program) (margin : String) : String :=
  linesText (p.lines.map (margin ++ ·))

/-- The listing of a module that was found valid first, if that is asked for. -/
def print (p : Program) (margin : String) (validated : Bool) : Except Error String := do
  if validated then
    p.validate
  return p.listing margin

def blockOutline (p : Program) (b : BlockRef) : List String :=
  ("   " ++ blockText (p.blockId b)) :: (p.body b).map fun r => "     " ++ p.instText r

def functionOutline (p : Program) (f : FuncRef) : List String :=
  functionText (p.functionId f) :: (p.function f).blocks.flatMap p.blockOutline

def inspectBlock (p : Program) (b : BlockRef) : String :=
  "<BasicBlock " ++ idText (p.blockId b) ++ ">"

def inspectFunction (p : Program) (f : FuncRef) : String :=
  "<Function " ++ idText (p.functionId f) ++ ">"

/-- How many functions, blocks and instructions inside of blocks there are. -/
def stats (p : Program) : String :=
  let functions := p.module.functions
  let blocks := functions.flatMap fun f => (p.function f).blocks
  let insts := functions.flatMap p.functionBody
  "functions: " ++ toString functions.length ++ ", blocks: " ++ toString blocks.length ++
    ", instructions: " ++ toString insts.length

end BlockTally.Program
