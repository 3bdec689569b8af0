import BlockTally.Facts.Annotations
import BlockTally.Facts.Features
import BlockTally.Facts.Tables
import BlockTally.Facts.Uses
import BlockTally.Program.Edit
import BlockTally.Ty.Declaration
import BlockTally.Ty.Decorations

/-! Workspaces: a program with the facts that were found out about it.

Facts are found when they are first asked for. From then on they are kept up to date only by edits that
are made in the workspace; the program can also be changed behind their back.
-/

set_option autoImplicit false

namespace BlockTally

structure Facts where
  uses : Option Uses := none
  annotations : Option Annotations := none
  types : Option TypeTable := none
  constants : Option ConstantTable := none
  features : Option Features := none
  deriving Inhabited

structure Workspace where
  program : Program := {}
  facts : Facts := {}
  deriving Inhabited

abbrev Action := Change Workspace

namespace Workspace

instance : MonadLift (EStateM Error Program) (EStateM Error Workspace) where
  monadLift := Change.within Workspace.program fun w p => { w with program := p }

def setUses (u : Uses) : Action Unit :=
  modify fun w => { w with facts := { w.facts with uses := some u } }

def setAnnotations (a : Annotations) : Action Unit :=
  modify fun w => { w with facts := { w.facts with annotations := some a } }

def setTypes (t : TypeTable) : Action Unit :=
  modify fun w => { w with facts := { w.facts with types := some t } }

def setConstants (t : ConstantTable) : Action Unit :=
  modify fun w => { w with facts := { w.facts with constants := some t } }

def setFeatures (f : Features) : Action Unit :=
  modify fun w => { w with facts := { w.facts with features := some f } }

/-- Drop all facts. -/
def forgetFacts : Action Unit :=
  modify fun w => { w with facts := {} }

/-! ### Finding facts -/

def needUses : Action Uses := do
  match (← get).facts.uses with
  | some u => return u
  | none =>
    let u := Uses.ofProgram (← get).program
    setUses u
    return u

def needAnnotations : Action Annotations := do
  match (← get).facts.annotations with
  | some a => return a
  | none =>
    let a ← Annotations.ofProgram (← get).program
    setAnnotations a
    return a

def needFeatures : Action Features := do
  match (← get).facts.features with
  | some f => return f
  | none =>
    let f ← Features.ofProgram (← get).program
    setFeatures f
    return f

/-- Read a type declaration with its annotations. Types it refers to have to be in the table already. That a
storage class is no number is noticed last. -/
def readType (t : TypeTable) (r : InstRef) : Action TypeTable := do
  let p := (← get).program
  let i := p.inst r
  let plain ← Ty.ofInstruction t.type? i
  let (own, members) := Annotations.ofType p (← needAnnotations) (.int i.resultId)
  let ty ← plain.decorated own members
  ty.checkStorage
  return t.register i.resultId ty

def readTypes : Action TypeTable := do
  let p := (← get).program
  (p.module.typesValues.filter fun r => (p.inst r).opcode.declaresType).foldlM readType {}

def needTypes : Action TypeTable := do
  match (← get).facts.types with
  | some t => return t
  | none =>
    let t ← readTypes
    setTypes t
    return t

/-- Read a constant declaration: a scalar of a known type with one value. -/
def readConstant (p : Program) (types : TypeTable) (t : ConstantTable) (r : InstRef) : ConstantTable :=
  let i := p.inst r
  match types.type? (.int i.typeId), i.operands with
  | some ty, [operand] =>
    if i.opcode = .constant then t.register ty operand.value i.resultId else t
  | _, _ => t

def needConstants : Action ConstantTable := do
  match (← get).facts.constants with
  | some t => return t
  | none =>
    let types ← needTypes
    let p := (← get).program
    let t := p.module.typesValues.foldl (readConstant p types) {}
    setConstants t
    return t

end Workspace

end BlockTally
