import BlockTally.Program.Basic

/-! Where code may be put into a block.

Function variables lead the entry block and phi instructions lead a block, so added code goes behind both.
-/

set_option autoImplicit false

namespace BlockTally.Program

/-- How many instructions at the start of a list have the opcode. -/
def leading (p : Program) (op : Opcode) (refs : List InstRef) : Nat :=
  (refs.takeWhile fun r => (p.inst r).opcode = op).length

/-- The position of the first instruction that is no variable. -/
def variablesEnd (p : Program) (b : BlockRef) : Nat :=
  p.leading .var (p.body b)

/-- The position behind the leading variables and the phi instructions after them. -/
def insertionPoint (p : Program) (b : BlockRef) : Nat :=
  p.variablesEnd b + p.leading .phi ((p.body b).drop (p.variablesEnd b))

/-- Whether the last instruction of a block ends it. -/
def isClosed (p : Program) (b : BlockRef) : Bool :=
  (p.body b).getLast?.any fun r => (p.inst r).isTerminator

/-- Whether a block is the first one of its function. -/
def isEntry (p : Program) (b : BlockRef) : Except Error Bool :=
  match (p.block b).function with
  | none => .error (.fault .detached)
  | some f => .ok (p.entryBlock? f = some b)

theorem leading_le (p : Program) (op : Opcode) (refs : List InstRef) : p.leading op refs ≤ refs.length :=
  (List.takeWhile_sublist _).length_le

theorem insertionPoint_le (p : Program) (b : BlockRef) : p.insertionPoint b ≤ (p.body b).length := by
  have first := p.leading_le .var (p.body b)
  have second := p.leading_le .phi ((p.body b).drop (p.variablesEnd b))
  simp only [List.length_drop] at second
  simp only [insertionPoint, variablesEnd] at *
  omega

theorem body_ne_nil {p : Program} {b : BlockRef} (behind : p.insertionPoint b ≠ (p.body b).length) : p.body b ≠ [] := by
  intro none
  have inside := p.insertionPoint_le b
  rw [none] at inside behind
  exact behind (Nat.le_zero.mp inside)

end BlockTally.Program
