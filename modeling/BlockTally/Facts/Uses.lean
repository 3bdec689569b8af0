import BlockTally.Program.Basic
import BlockTally.Table

/-! Which instruction defines an id, and which ones use it where.

The index holds what instructions looked like when they were last recorded. An instruction that changed
is recorded again; it then counts as recorded last.
-/

set_option autoImplicit false

namespace BlockTally

/-- A use of an id: as an operand, or as the type if there is no operand number. -/
structure Use where
  user : InstRef
  operand : Option Nat
  deriving DecidableEq, Repr, Inhabited

/-- The ids an instruction uses, with the places: its type, then its id operands in order. -/
def Instruction.useSites (i : Instruction) : List (Value × Option Nat) :=
  (if i.hasType then [(Value.int i.typeId, none)] else []) ++
    (i.operands.zipIdx.filter fun entry => entry.1.isId).map fun entry => (entry.1.value, some entry.2)

theorem Instruction.map_fst_useSites (i : Instruction) : i.useSites.map Prod.fst = i.usedIds := by
  have places (operands : List Operand) (start : Nat) :
      (((operands.zipIdx start).filter fun entry => entry.1.isId).map fun entry => entry.1.value) =
        (operands.filter Operand.isId).map Operand.value := by
    induction operands generalizing start with
    | nil => rfl
    | cons operand rest ih =>
      by_cases id : operand.isId = true <;> simp [List.zipIdx_cons, id, ih]
  simp only [useSites, usedIds, List.map_append, List.map_map]
  congr 1
  · split <;> rfl
  · exact places i.operands 0

structure Uses where
  definitions : Table Value InstRef := {}
  uses : Table Value (List Use) := {}
  /-- The ids each recorded instruction uses, so that its uses can be found again. -/
  recorded : Table InstRef (List Value) := {}
  deriving Repr, Inhabited

namespace Uses

def definition? (u : Uses) (id : Value) : Option InstRef :=
  u.definitions.get? id

def usesOf (u : Uses) (id : Value) : List Use :=
  (u.uses.get? id).getD []

/-- The users of an id, each one once. -/
def usersOf (u : Uses) (id : Value) : List InstRef :=
  ((u.usesOf id).map Use.user).eraseDups

def recordDefinition (u : Uses) (r : InstRef) (i : Instruction) : Uses :=
  if i.hasResult then { u with definitions := u.definitions.set (.int i.resultId) r } else u

def dropUses (u : Uses) (r : InstRef) (id : Value) : Uses :=
  { u with uses := u.uses.set id ((u.usesOf id).filter fun use => use.user ≠ r) }

/-- Forget the recorded uses of an instruction. -/
def clearUses (u : Uses) (r : InstRef) : Uses :=
  match u.recorded.get? r with
  | none => u
  | some ids =>
    let u := ids.foldl (fun u id => u.dropUses r id) u
    { u with recorded := u.recorded.erase r }

def addUse (u : Uses) (id : Value) (use : Use) : Uses :=
  { u with uses := u.uses.set id (u.usesOf id ++ [use]) }

/-- Record the uses of an instruction in place of those recorded before. -/
def recordUses (u : Uses) (r : InstRef) (i : Instruction) : Uses :=
  let u := i.useSites.foldl (fun u site => u.addUse site.1 ⟨r, site.2⟩) (u.clearUses r)
  { u with recorded := u.recorded.set r (i.useSites.map Prod.fst) }

def record (u : Uses) (r : InstRef) (i : Instruction) : Uses :=
  (u.recordDefinition r i).recordUses r i

/-- Forget an instruction: its uses, and that it defines the result id it has now. -/
def forget (u : Uses) (r : InstRef) (i : Instruction) : Uses :=
  let u := u.clearUses r
  if i.hasResult ∧ u.definition? (.int i.resultId) = some r then
    { u with definitions := u.definitions.erase (.int i.resultId) }
  else u

/-- The index of a whole module: all definitions, then all uses. -/
def ofProgram (p : Program) : Uses :=
  -- An instruction that is listed twice is recorded twice, and the second time counts.
  let u := p.allInsts.foldl (fun u r => u.recordDefinition r (p.inst r)) {}
  p.allInsts.foldl (fun u r => u.recordUses r (p.inst r)) u

end Uses

end BlockTally
