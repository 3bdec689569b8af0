import BlockTally.Program.Basic
import BlockTally.Table

/-! The decorations of each id, as annotation instructions in the order they were found. -/

set_option autoImplicit false

namespace BlockTally

structure Annotations where
  byTarget : Table Value (List InstRef) := {}
  deriving Repr, Inhabited

def Instruction.annotates (i : Instruction) : Bool :=
  i.opcode = .decorate || i.opcode = .memberDecorate

namespace Annotations

/-- The annotations of an id. -/
def on (a : Annotations) (target : Value) : List InstRef :=
  (a.byTarget.get? target).getD []

/-- Take note of an instruction, if it is an annotation of something. -/
def analyze (p : Program) (a : Annotations) (r : InstRef) : Except Error Annotations :=
  if (p.inst r).annotates then do
    let target ← (p.inst r).value 0
    return ⟨a.byTarget.set target (a.on target ++ [r])⟩
  else .ok a

def ofProgram (p : Program) : Except Error Annotations :=
  p.module.annotations.foldlM (analyze p) {}

/-- The annotation of an id with the opcode and with exactly the values after the id. -/
def find? (p : Program) (a : Annotations) (target : Value) (opcode : Opcode) (values : List Value) :
    Option InstRef :=
  (a.on target).find? fun r => (p.inst r).opcode = opcode ∧ (p.inst r).valuesFrom 1 = values

def anyDecorates (p : Program) (decoration : Value) (values : List Value) :
    List InstRef → Except Error Bool
  | [] => .ok false
  | r :: rest => do
    if (p.inst r).opcode = .decorate then
      let present ← (p.inst r).value 1
      if present = decoration ∧ (values = [] ∨ (p.inst r).valuesFrom 2 = values) then
        return true
    anyDecorates p decoration values rest

/-- Whether an id has the decoration; values that are given have to match as well. -/
def has (p : Program) (a : Annotations) (target decoration : Value) (values : List Value) :
    Except Error Bool :=
  anyDecorates p decoration values (a.on target)

/-- The decorations of an id and those of its members, in the form in which types carry them. -/
def ofType (p : Program) (a : Annotations) (target : Value) : List (List Value) × List (List Value) :=
  let (own, members) := (a.on target).partition fun r => (p.inst r).opcode = .decorate
  (own.map fun r => (p.inst r).valuesFrom 1, members.map fun r => (p.inst r).valuesFrom 1)

end Annotations

end BlockTally
