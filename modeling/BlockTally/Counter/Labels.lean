import BlockTally.Calls

/-! The numbering of blocks.

All blocks of the functions that can be reached from an entry point are numbered from 0 on, in the order in
which a tour meets them. A block is known by its label, so labels must have ids and must not repeat.
-/

set_option autoImplicit false

namespace BlockTally

/-- Block numbers by label id. -/
abbrev Labels := Table Id Nat

namespace Program

def labelBlock (p : Program) (f : FuncRef) (labels : Labels) (b : BlockRef) : Except Error Labels :=
  let id := p.blockId b
  if id = 0 then .error (.invariant (.unlabeledBlock (p.functionId f)))
  else if labels.contains id then .error (.invariant (.repeatedLabel id))
  else .ok (labels.set id labels.size)

def labelFunction (p : Program) (labels : Labels) (f : FuncRef) : Except Error Labels :=
  (p.function f).blocks.foldlM (p.labelBlock f) labels

def blockLabels (p : Program) : Except Error Labels := do
  (← p.entryTour).foldM p.labelFunction {}

end Program

end BlockTally
