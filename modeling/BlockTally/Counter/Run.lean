import BlockTally.Counter.Increment
import BlockTally.Counter.Labels
import BlockTally.Program.Validity

/-! Runs: every block that an entry point can reach gets an increment of its own counter.

A run numbers the blocks, tells the hooks, and then inserts the increments. A hook may change anything,
the module included; what it does cannot fail as far as the run is concerned.
-/

set_option autoImplicit false

namespace BlockTally

structure Settings where
  wide : Bool := false
  atomic : Bool := true
  deriving DecidableEq, Repr, Inhabited

inductive Status where
  | unchanged
  | changed
  deriving DecidableEq, Repr, Inhabited

def Status.text : Status → String
  | .unchanged => "SUCCESS_WITHOUT_CHANGE"
  | .changed => "SUCCESS_WITH_CHANGE"

/-- The state of a run, next to a state of whoever started it. -/
structure Run (σ : Type) where
  job : Job := {}
  labels : Labels := {}
  /-- How many blocks got an increment. -/
  instrumented : Nat := 0
  host : σ

abbrev Running (σ : Type) := Change (Run σ)

/-- What happens once the blocks are numbered: first the number of blocks is told, then the numbering. -/
structure Hooks (σ : Type) where
  onCount : Nat → Run σ → Run σ := fun _ r => r
  onLabels : Labels → Run σ → Run σ := fun _ r => r

namespace Run

variable {σ : Type}

instance : MonadLift (EStateM Error Job) (EStateM Error (Run σ)) where
  monadLift := Change.within Run.job fun r j => { r with job := j }

def passName : String := "inst-basic-block-trace"

def passTitle : String := "BasicBlockTracePass"

def program (r : Run σ) : Program :=
  r.job.workspace.program

/-- Begin afresh on the same program. -/
def prepare (settings : Settings) (r : Run σ) : Run σ where
  job := { workspace := { program := r.program }, buffer := { wide := settings.wide } }
  host := r.host

/-- Count a block, unless it has nothing behind its variables and phi instructions. -/
def instrumentBlock (atomic : Bool) (b : BlockRef) : Running σ Bool := do
  let r ← get
  let place := r.program.insertionPoint b
  if place = (r.program.body b).length then
    return false
  match r.labels.get? (r.program.blockId b) with
  | none => throw (.invariant (.untracedBlock (r.program.blockId b)))
  | some traceIndex =>
    let refs ← Job.increment atomic traceIndex
    Program.insertInsts b place refs
    modify fun r => { r with instrumented := r.instrumented + 1 }
    return true

/-- Count all blocks of a function, and tell whether any was changed. -/
def instrumentFunction (atomic : Bool) (f : FuncRef) : Running σ Bool := do
  ((← get).program.function f).blocks.foldlM (fun changed b => do
    return (← instrumentBlock atomic b) || changed) false

/-- Count all blocks that an entry point can reach. -/
def run (settings : Settings) (hooks : Hooks σ) : Running σ Status := do
  modify (prepare settings)
  let labels ← (← get).program.blockLabels
  modify fun r => { r with labels }
  modify (hooks.onCount labels.size)
  modify fun r => hooks.onLabels r.labels r
  -- The hooks may have changed who calls whom, so the tour is not the one that numbered the blocks.
  let tour ← (← get).program.entryTour
  let changed ← tour.anyChange (instrumentFunction settings.atomic)
  Workspace.forgetFacts
  return if changed then .changed else .unchanged

/-- A run on a module that has to be valid before and after it, if that is asked for. -/
def runChecked (settings : Settings) (hooks : Hooks σ) (validated : Bool) : Running σ Status := do
  if validated then
    (← get).program.validate
  let status ← run settings hooks
  if validated then
    (← get).program.validate
  return status

end Run

end BlockTally
