import BlockTally.Program.Edit
import BlockTally.Program.Insertion
import BlockTally.Proofs.Contract

/-! Growth of programs.

A program grows when instructions are made and listed, ids are taken and interfaces of entry points get
longer, while everything that was there stays as it was. Bodies of blocks are left out here: they are
followed one by one.
-/

set_option autoImplicit false

namespace BlockTally

def Section.isOpen : Section → Bool
  | .capabilities | .extensions | .debugs2 | .annotations | .typesValues => true
  | _ => false

structure Module.Grows (m n : Module) : Prop where
  version : n.version = m.version
  generator : n.generator = m.generator
  memoryModel : n.memoryModel = m.memoryModel
  functions : n.functions = m.functions
  longer : ∀ place, m.list place <+: n.list place
  closed : ∀ place : Section, place.isOpen = false → n.list place = m.list place
  bound_le : m.idBound ≤ n.idBound
  le_bound : n.idBound ≤ m.idBound ∨ n.idBound ≤ maxIdBound

namespace Module.Grows

theorem refl (m : Module) : m.Grows m :=
  ⟨rfl, rfl, rfl, rfl, fun _ => List.prefix_rfl, fun _ _ => rfl, Int.le_refl _, .inl (Int.le_refl _)⟩

theorem trans {m n o : Module} (first : m.Grows n) (second : n.Grows o) : m.Grows o where
  version := second.version.trans first.version
  generator := second.generator.trans first.generator
  memoryModel := second.memoryModel.trans first.memoryModel
  functions := second.functions.trans first.functions
  longer place := (first.longer place).trans (second.longer place)
  closed place fixed := (second.closed place fixed).trans (first.closed place fixed)
  bound_le := Int.le_trans first.bound_le second.bound_le
  le_bound := by
    have := first.le_bound
    have := second.le_bound
    omega

theorem entryPoints {m n : Module} (h : m.Grows n) : n.entryPoints = m.entryPoints :=
  h.closed .entryPoints rfl

theorem mem_typesValues {m n : Module} (h : m.Grows n) {r : InstRef} (member : r ∈ m.typesValues) :
    r ∈ n.typesValues :=
  (h.longer .typesValues).subset member

end Module.Grows

def Instruction.extended (i : Instruction) (more : List Operand) : Instruction :=
  { i with operands := i.operands ++ more }

theorem Instruction.extended_nil (i : Instruction) : i.extended [] = i := by
  simp [extended]

theorem Instruction.extended_extended (i : Instruction) (more further : List Operand) :
    (i.extended more).extended further = i.extended (more ++ further) := by
  simp [extended]

namespace Program

/-- Whether a name was given to an instruction. -/
def Holds (p : Program) (r : InstRef) : Prop :=
  r.index < p.instructions.size

instance (p : Program) (r : InstRef) : Decidable (p.Holds r) :=
  inferInstanceAs (Decidable (r.index < p.instructions.size))

structure Grows (p q : Program) : Prop where
  size_le : p.instructions.size ≤ q.instructions.size
  inst : ∀ {r : InstRef}, p.Holds r → r ∉ p.module.entryPoints → q.inst r = p.inst r
  extended : ∀ {r : InstRef}, p.Holds r → ∃ more, q.inst r = (p.inst r).extended more
  blockOf : ∀ {r : InstRef}, p.Holds r → q.blockOf? r = p.blockOf? r
  functions : q.functions = p.functions
  module : p.module.Grows q.module

namespace Grows

theorem refl (p : Program) : p.Grows p where
  size_le := Nat.le_refl _
  inst _ _ := rfl
  extended _ := ⟨[], (Instruction.extended_nil _).symm⟩
  blockOf _ := rfl
  functions := rfl
  module := .refl _

theorem holds {p q : Program} (h : p.Grows q) {r : InstRef} (old : p.Holds r) : q.Holds r :=
  Nat.lt_of_lt_of_le old h.size_le

theorem trans {p q o : Program} (first : p.Grows q) (second : q.Grows o) : p.Grows o where
  size_le := Nat.le_trans first.size_le second.size_le
  inst old plain := by
    have plain' : _ ∉ q.module.entryPoints := first.module.entryPoints ▸ plain
    rw [second.inst (first.holds old) plain', first.inst old plain]
  extended old := by
    obtain ⟨more, same⟩ := first.extended old
    obtain ⟨further, same'⟩ := second.extended (first.holds old)
    exact ⟨more ++ further, by rw [same', same, Instruction.extended_extended]⟩
  blockOf old := (second.blockOf (first.holds old)).trans (first.blockOf old)
  functions := second.functions.trans first.functions
  module := first.module.trans second.module

variable {p q : Program} (h : p.Grows q) {r : InstRef} (old : p.Holds r)
include h old

theorem opcode : (q.inst r).opcode = (p.inst r).opcode := by
  obtain ⟨more, same⟩ := h.extended old
  rw [same]
  rfl

theorem resultId : (q.inst r).resultId = (p.inst r).resultId := by
  obtain ⟨more, same⟩ := h.extended old
  rw [same]
  rfl

end Grows

theorem Grows.function {p q : Program} (h : p.Grows q) (f : FuncRef) : q.function f = p.function f := by
  simp only [Program.function, h.functions]

/-! ### Steps of growth -/

def nextBound (p : Program) : Program :=
  { p with module := { p.module with idBound := p.module.idBound + 1 } }

def made (p : Program) (i : Instruction) : Program :=
  { p with instructions := p.instructions.push { instruction := i } }

def appended (p : Program) (place : Section) (r : InstRef) : Program :=
  { p with module := p.module.setList place (p.module.list place ++ [r]) }

def withOperand (p : Program) (r : InstRef) (operand : Operand) : Program :=
  p.changeInst r fun i => { i with operands := i.operands ++ [operand] }

theorem after_takeId {p : Program} {good : Id → Program → Prop} {bad : Error → Program → Prop}
    (exhausted : maxIdBound ≤ p.module.idBound → bad .idsExhausted p)
    (taken : p.module.idBound < maxIdBound → good p.module.idBound p.nextBound) :
    Change.After takeId p good bad := by
  unfold takeId
  refine .bind (.get ?_)
  split
  next full => exact .bind (.throw (exhausted full))
  next free => exact taken (by omega)

theorem after_newInst {p : Program} {i : Instruction} {good : InstRef → Program → Prop}
    {bad : Error → Program → Prop} (h : good ⟨p.instructions.size⟩ (p.made i)) :
    Change.After (newInst i) p good bad := h

theorem after_append {p : Program} {place : Section} {r : InstRef} {good : Unit → Program → Prop}
    {bad : Error → Program → Prop} (h : good () (p.appended place r)) :
    Change.After (append place r) p good bad := h

theorem after_declare {p : Program} {place : Section} {i : Instruction} {good : InstRef → Program → Prop}
    {bad : Error → Program → Prop}
    (h : good ⟨p.instructions.size⟩ ((p.made i).appended place ⟨p.instructions.size⟩)) :
    Change.After (declare place i) p good bad := h

theorem after_addOperand {p : Program} {r : InstRef} {operand : Operand} {good : Unit → Program → Prop}
    {bad : Error → Program → Prop} (h : good () (p.withOperand r operand)) :
    Change.After (addOperand r operand) p good bad := h

@[simp] theorem inst_appended (p : Program) (place : Section) (r s : InstRef) :
    (p.appended place r).inst s = p.inst s := rfl

@[simp] theorem inst_made (p : Program) (i : Instruction) :
    (p.made i).inst ⟨p.instructions.size⟩ = i := by
  simp [inst, made, Arena.get_push]

theorem inst_made_of_lt {p : Program} {r : InstRef} (i : Instruction) (old : p.Holds r) :
    (p.made i).inst r = p.inst r := by
  simp only [inst, made, Arena.get_push_of_lt _ _ old]

@[simp] theorem size_made (p : Program) (i : Instruction) :
    (p.made i).instructions.size = p.instructions.size + 1 :=
  Arena.size_push ..

theorem holds_made (p : Program) (i : Instruction) : (p.made i).Holds ⟨p.instructions.size⟩ :=
  Nat.lt_of_lt_of_eq (Nat.lt_succ_self _) (p.size_made i).symm

@[simp] theorem size_withOperand (p : Program) (r : InstRef) (operand : Operand) :
    (p.withOperand r operand).instructions.size = p.instructions.size :=
  Arena.size_update ..

theorem inst_changeInst (p : Program) (r s : InstRef) (change : Instruction → Instruction) :
    (p.changeInst r change).inst s = if r = s ∧ p.Holds r then change (p.inst r) else p.inst s := by
  have names : r.index = s.index ↔ r = s := by cases r; cases s; simp
  simp only [inst, changeInst, Arena.get_update, names]
  split
  next same => exact (if_pos (c := r = s ∧ p.Holds r) same).symm
  next differ => exact (if_neg (c := r = s ∧ p.Holds r) differ).symm

theorem inst_withOperand_of_ne (p : Program) {r s : InstRef} (operand : Operand) (differ : s ≠ r) :
    (p.withOperand r operand).inst s = p.inst s := by
  rw [withOperand, inst_changeInst, if_neg fun same => differ same.1.symm]

theorem inst_withOperand_extended (p : Program) (r s : InstRef) (operand : Operand) :
    ∃ more, (p.withOperand r operand).inst s = (p.inst s).extended more := by
  rw [withOperand, inst_changeInst]
  split
  next same => exact ⟨[operand], by rw [← same.1]; rfl⟩
  next => exact ⟨[], (Instruction.extended_nil _).symm⟩

theorem blockOf_withOperand (p : Program) (r s : InstRef) (operand : Operand) :
    (p.withOperand r operand).blockOf? s = p.blockOf? s := by
  simp only [blockOf?, withOperand, changeInst, Arena.get_update]
  split
  next same => rw [same.1]
  next => rfl

theorem grows_nextBound {p : Program} (free : p.module.idBound < maxIdBound) : p.Grows p.nextBound where
  size_le := Nat.le_refl _
  inst _ _ := rfl
  extended _ := ⟨[], (Instruction.extended_nil _).symm⟩
  blockOf _ := rfl
  functions := rfl
  module :=
    { version := rfl, generator := rfl, memoryModel := rfl, functions := rfl
      longer := fun place => by cases place <;> exact List.prefix_rfl
      closed := fun place _ => by cases place <;> rfl
      bound_le := by simp only [nextBound]; omega
      le_bound := by simp only [nextBound]; omega }

theorem grows_made (p : Program) (i : Instruction) : p.Grows (p.made i) where
  size_le := by simp
  inst old _ := inst_made_of_lt i old
  extended old := ⟨[], by rw [inst_made_of_lt i old, Instruction.extended_nil]⟩
  blockOf old := by simp only [blockOf?, made, Arena.get_push_of_lt _ _ old]
  functions := rfl
  module := .refl _

theorem grows_appended (p : Program) {place : Section} (r : InstRef) (isOpen : place.isOpen = true) :
    p.Grows (p.appended place r) where
  size_le := Nat.le_refl _
  inst _ _ := rfl
  extended _ := ⟨[], (Instruction.extended_nil _).symm⟩
  blockOf _ := rfl
  functions := rfl
  module :=
    { version := by cases place <;> rfl
      generator := by cases place <;> rfl
      memoryModel := by cases place <;> rfl
      functions := by cases place <;> rfl
      longer := fun other => by
        rw [appended, Module.list_setList]
        split
        next same => exact same ▸ List.prefix_append ..
        next => exact List.prefix_rfl
      closed := fun other fixed => by
        rw [appended, Module.list_setList, if_neg]
        rintro rfl
        exact absurd isOpen (by simp [fixed])
      bound_le := by cases place <;> exact Int.le_refl _
      le_bound := by cases place <;> exact .inl (Int.le_refl _) }

theorem mem_typesValues_appended (p : Program) {place : Section} {r s : InstRef}
    (member : s ∈ (p.appended place r).module.typesValues) : s ∈ p.module.typesValues ∨ s = r := by
  have among : s ∈ (p.module.setList place (p.module.list place ++ [r])).list .typesValues := member
  rw [Module.list_setList] at among
  split at among
  next same =>
    subst same
    simpa [Module.list] using among
  next => exact .inl among

theorem grows_withOperand {p : Program} {r : InstRef} (operand : Operand) (entry : r ∈ p.module.entryPoints) :
    p.Grows (p.withOperand r operand) where
  size_le := by simp
  inst _ plain := inst_withOperand_of_ne p operand fun same => plain (same ▸ entry)
  extended _ := inst_withOperand_extended ..
  blockOf _ := blockOf_withOperand ..
  functions := rfl
  module := .refl _

end Program

end BlockTally
