import BlockTally.Program.Basic
import BlockTally.Table

/-! Which functions call which, and the tour of all functions that can be reached from given ones.

A tour goes breadth first: the roots in order, then what they call in the order of the first calls, and so
on. It visits a function once, also when calls go in circles, and ends early at an id that is no function.
-/

set_option autoImplicit false

namespace BlockTally

structure CallNode where
  function : FuncRef
  callees : List Value
  deriving DecidableEq, Repr, Inhabited

structure Calls where
  nodes : Table Value CallNode := {}
  deriving Repr, Inhabited

/-- The functions of a tour in order, and the missing id that ended it, if one did. -/
structure Tour where
  visited : List FuncRef := []
  missing : Option Value := none
  deriving DecidableEq, Repr, Inhabited

namespace Calls

/-- Add a function; of two with one id the later one counts, at the place of the earlier one. -/
def addFunction (p : Program) (calls : Calls) (f : FuncRef) : Except Error Calls := do
  let callees ← p.callees f
  return ⟨calls.nodes.set (.int (p.functionId f)) { function := f, callees := callees.eraseDups }⟩

def ofProgram (p : Program) : Except Error Calls :=
  p.module.functions.foldlM (addFunction p) {}

def function (calls : Calls) (id : Value) : Except Error FuncRef :=
  match calls.nodes.get? id with
  | some node => .ok node.function
  | none => .error (.illFormed (.missingFunction id))

def successors (calls : Calls) (id : Value) : Except Error (List Value) :=
  match calls.nodes.get? id with
  | some node => .ok node.callees
  | none => .error (.unknownFunction id)

/-- The tour of what is reached from the waiting ids and not yet done. Each step visits one more node of
the graph, so as many steps as there are nodes not yet done are enough. -/
def tourFrom (calls : Calls) : Nat → List Value → List Value → Tour
  | steps, done, waiting =>
    match waiting.dropWhile (· ∈ done) with
    | [] => {}
    | id :: rest =>
      match calls.nodes.get? id, steps with
      | some node, steps + 1 =>
        let tour := tourFrom calls steps (id :: done) (rest ++ node.callees)
        { tour with visited := node.function :: tour.visited }
      -- The steps of a whole tour do not run out: every step before visited another node.
      | _, _ => { missing := some id }

def tour (calls : Calls) (roots : List Value) : Tour :=
  calls.tourFrom calls.nodes.size [] roots

end Calls

namespace Tour

variable {m : Type → Type} [Monad m] [MonadExceptOf Error m] {σ : Type}

/-- Go through a tour with a state; a missing function is reported after the visits before it. -/
def foldM (visit : σ → FuncRef → m σ) (start : σ) (t : Tour) : m σ := do
  let last ← t.visited.foldlM visit start
  match t.missing with
  | some id => throw (.illFormed (.missingFunction id))
  | none => return last

/-- Visit all functions of a tour, and tell whether any visit reported a change. -/
def anyChange (visit : FuncRef → m Bool) (t : Tour) : m Bool :=
  t.foldM (fun changed f => do return changed || (← visit f)) false

end Tour

namespace Program

/-- The tour from given ids, by the calls as they are now. -/
def tourFrom (p : Program) (roots : List Value) : Except Error Tour := do
  return (← Calls.ofProgram p).tour roots

/-- The tour from the entry points. -/
def entryTour (p : Program) : Except Error Tour := do
  p.tourFrom (← p.entryIds)

end Program

end BlockTally
