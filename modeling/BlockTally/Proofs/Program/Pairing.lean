import BlockTally.Proofs.Agreement
import BlockTally.Proofs.Program.Insertion

/-! Programs that look alike.

Two programs look alike under a pairing of their names if paired instructions are the same and paired lists are paired
entry by entry. What is not paired may differ. Instructions that are made in both programs are paired as they come.
-/

set_option autoImplicit false

namespace BlockTally

/-- Which names of one program go with which names of another one. -/
structure Pairing where
  insts : InstRef → InstRef → Prop
  blocks : BlockRef → BlockRef → Prop
  functions : FuncRef → FuncRef → Prop
  /-- How many blocks were made in the one program and in the other. -/
  count : Nat
  count' : Nat
  insts_unique : Relator.BiUnique insts
  blocks_unique : Relator.BiUnique blocks

def Pairing.same (count : Nat) : Pairing where
  insts := Eq
  blocks := Eq
  functions := Eq
  count := count
  count' := count
  insts_unique :=
    ⟨fun _ _ _ first second => first.trans second.symm, fun _ _ _ first second => first.symm.trans second⟩
  blocks_unique :=
    ⟨fun _ _ _ first second => first.trans second.symm, fun _ _ _ first second => first.symm.trans second⟩

namespace Program

variable {ρ : Pairing} {p q : Program} {r s : InstRef} {refs refs' : List InstRef} {b c : BlockRef} {f g : FuncRef}

structure BlocksAlike (ρ : Pairing) (b c : Block) : Prop where
  label : ρ.insts b.label c.label
  body : List.Forall₂ ρ.insts b.body c.body

structure FunctionsAlike (ρ : Pairing) (f g : Function) : Prop where
  definition : ρ.insts f.definition g.definition
  parameters : List.Forall₂ ρ.insts f.parameters g.parameters
  blocks : List.Forall₂ ρ.blocks f.blocks g.blocks
  endMark : ρ.insts f.endMark g.endMark

structure ModulesAlike (ρ : Pairing) (m n : Module) : Prop where
  version : n.version = m.version
  idBound : n.idBound = m.idBound
  memoryModel : List.Forall₂ ρ.insts m.memoryModel.toList n.memoryModel.toList
  list : ∀ place, List.Forall₂ ρ.insts (m.list place) (n.list place)

structure Alike (ρ : Pairing) (p q : Program) : Prop where
  module : ModulesAlike ρ p.module q.module
  inst : ∀ {r s}, ρ.insts r s → q.inst s = p.inst r
  holds : ∀ {r s}, ρ.insts r s → (p.Holds r ↔ q.Holds s)
  count : p.blocks.size = ρ.count
  count' : q.blocks.size = ρ.count'
  block : ∀ {b c}, ρ.blocks b c → BlocksAlike ρ (p.block b) (q.block c)
  function : ∀ {f g}, ρ.functions f g → FunctionsAlike ρ (p.function f) (q.function g)
  /-- What is made next is paired, and so on. -/
  fresh : ∀ k, ρ.insts ⟨p.instructions.size + k⟩ ⟨q.instructions.size + k⟩

theorem list_nextBound (p : Program) (place : Section) : p.nextBound.module.list place = p.module.list place := by
  cases place <;> rfl

theorem ModulesAlike.setList {m n : Module} (h : ModulesAlike ρ m n) (place : Section)
    (listed : List.Forall₂ ρ.insts refs refs') : ModulesAlike ρ (m.setList place refs) (n.setList place refs') where
  version := by cases place <;> exact h.version
  idBound := by cases place <;> exact h.idBound
  memoryModel := by cases place <;> exact h.memoryModel
  list other := by
    rw [Module.list_setList, Module.list_setList]
    split
    · exact listed
    · exact h.list other

theorem Alike.refl (p : Program) : Alike (.same p.blocks.size) p p where
  module := ⟨rfl, rfl, List.forall₂_eq_eq_eq ▸ rfl, fun _ => List.forall₂_eq_eq_eq ▸ rfl⟩
  inst same := congrArg p.inst (Eq.symm same)
  holds same := iff_of_eq (congrArg p.Holds same)
  count := rfl
  count' := rfl
  block same := by
    cases same
    exact ⟨rfl, List.forall₂_eq_eq_eq ▸ rfl⟩
  function same := by
    cases same
    exact ⟨rfl, List.forall₂_eq_eq_eq ▸ rfl, List.forall₂_eq_eq_eq ▸ rfl, rfl⟩
  fresh _ := rfl

namespace Alike

variable (h : Alike ρ p q)
include h

theorem map {γ : Type} (view : Instruction → γ) (listed : List.Forall₂ ρ.insts refs refs') :
    refs'.map (fun s => view (q.inst s)) = refs.map fun r => view (p.inst r) := by
  induction listed with
  | nil => rfl
  | cons here _ ih => rw [List.map_cons, List.map_cons, h.inst here, ih]

theorem filter (test : Instruction → Bool) (listed : List.Forall₂ ρ.insts refs refs') :
    List.Forall₂ ρ.insts (refs.filter fun r => test (p.inst r)) (refs'.filter fun r => test (q.inst r)) :=
  List.rel_filter (fun r s paired => by simp only [h.inst paired]) listed

theorem mapM {γ : Type} (read : Instruction → Except Error γ) (listed : List.Forall₂ ρ.insts refs refs') :
    refs'.mapM (fun s => read (q.inst s)) = refs.mapM fun r => read (p.inst r) := by
  have answers : Corresponds (List.Forall₂ Eq) (refs.mapM fun r => read (p.inst r))
      (refs'.mapM fun s => read (q.inst s)) := .mapM listed fun r s paired => h.inst paired ▸ .refl _
  rw [List.forall₂_eq_eq_eq] at answers
  exact answers.eq.symm

theorem entryIds : q.entryIds = p.entryIds :=
  h.mapM (·.value 1) (h.module.list .entryPoints)

theorem body (paired : ρ.blocks b c) : List.Forall₂ ρ.insts (p.body b) (q.body c) :=
  (h.block paired).body

theorem blockId (paired : ρ.blocks b c) : q.blockId c = p.blockId b := by
  unfold Program.blockId
  rw [h.inst (h.block paired).label]

theorem functionId (paired : ρ.functions f g) : q.functionId g = p.functionId f := by
  unfold Program.functionId
  rw [h.inst (h.function paired).definition]

/-- Paired functions make the same calls. -/
theorem callees (paired : ρ.functions f g) : q.callees g = p.callees f := by
  have body : List.Forall₂ ρ.insts (p.functionBody f) (q.functionBody g) :=
    List.rel_flatMap (h.function paired).blocks fun _ _ paired => h.body paired
  exact h.mapM (·.value 0) (h.filter (·.opcode = .functionCall) body)

theorem leading (op : Opcode) (listed : List.Forall₂ ρ.insts refs refs') : q.leading op refs' = p.leading op refs := by
  unfold Program.leading
  induction listed with
  | nil => rfl
  | cons here _ ih =>
    rw [List.takeWhile_cons, List.takeWhile_cons, h.inst here]
    split
    · exact congrArg Nat.succ ih
    · rfl

theorem insertionPoint (paired : ρ.blocks b c) : q.insertionPoint c = p.insertionPoint b := by
  have body := h.body paired
  have start : q.variablesEnd c = p.variablesEnd b := h.leading .var body
  unfold Program.insertionPoint
  rw [start, h.leading .phi (List.forall₂_drop _ body)]

/-! ### Edits -/

theorem nextBound : Alike ρ p.nextBound q.nextBound :=
  { h with
    module :=
      { version := h.module.version, idBound := congrArg (· + 1) h.module.idBound
        memoryModel := h.module.memoryModel
        list := fun place => by rw [list_nextBound, list_nextBound]; exact h.module.list place } }

theorem appended (place : Section) (paired : ρ.insts r s) : Alike ρ (p.appended place r) (q.appended place s) :=
  { h with module := h.module.setList place (List.rel_append (h.module.list place) (.cons paired .nil)) }

theorem made (i : Instruction) : Alike ρ (p.made i) (q.made i) := by
  have last := h.fresh 0
  have new {r s : InstRef} (paired : ρ.insts r s) : r.index = p.instructions.size ↔ s.index = q.instructions.size := by
    have same := Relator.rel_eq ρ.insts_unique paired last
    cases r
    cases s
    simpa using same
  refine { h with inst := fun {r s} paired => ?_, holds := fun {r s} paired => ?_, fresh := fun k => ?_ }
  · simp only [Program.inst, Program.made, Arena.get_push, new paired]
    split
    · rfl
    · exact h.inst paired
  · have held := h.holds paired
    have new := new paired
    simp only [Holds, size_made] at *
    omega
  · rw [size_made, size_made, Nat.add_assoc, Nat.add_assoc]
    exact h.fresh (1 + k)

theorem withOperand (operand : Operand) (paired : ρ.insts r s) :
    Alike ρ (p.withOperand r operand) (q.withOperand s operand) := by
  refine { h with inst := fun {t u} other => ?_, holds := fun {t u} other => ?_, fresh := fun k => ?_ }
  · simp only [Program.withOperand, inst_changeInst, Relator.rel_eq ρ.insts_unique paired other, h.holds paired,
      h.inst paired, h.inst other]
  · simp only [Holds, size_withOperand]
    exact h.holds other
  · rw [size_withOperand, size_withOperand]
    exact h.fresh k

/-- Paired instructions are put into paired blocks that were made. -/
theorem inserted (gap : Nat) (old : b.index < ρ.count) (old' : c.index < ρ.count') (paired : ρ.blocks b c)
    (listed : List.Forall₂ ρ.insts refs refs') : Alike ρ (p.inserted b gap refs) (q.inserted c gap refs') := by
  have old : b.index < p.blocks.size := h.count ▸ old
  have old' : c.index < q.blocks.size := h.count' ▸ old'
  constructor
  case module =>
    rw [module_inserted, module_inserted]
    exact h.module
  case inst =>
    intro r s other
    rw [inst_inserted, inst_inserted]
    exact h.inst other
  case holds =>
    intro r s other
    rw [holds_inserted, holds_inserted]
    exact h.holds other
  case count =>
    rw [size_blocks_inserted]
    exact h.count
  case count' =>
    rw [size_blocks_inserted]
    exact h.count'
  case block =>
    intro d e other
    by_cases here : d = b
    · obtain rfl := here
      obtain rfl := ρ.blocks_unique.right other paired
      rw [block_inserted old, block_inserted old']
      have body := h.body other
      exact ⟨(h.block other).label,
        List.rel_append (List.rel_append (List.forall₂_take gap body) listed) (List.forall₂_drop gap body)⟩
    · have there : e ≠ c := fun same => here (ρ.blocks_unique.left other (same ▸ paired))
      rw [block_inserted_of_ne here, block_inserted_of_ne there]
      exact h.block other
  case function =>
    intro f g other
    rw [function_inserted, function_inserted]
    exact h.function other
  case fresh =>
    intro k
    rw [size_inserted, size_inserted]
    exact h.fresh k

end Alike

/-! ### Edits that agree -/

section Agreement

open Change

theorem takeId_apply (p : Program) : takeId p =
    if maxIdBound ≤ p.module.idBound then .error .idsExhausted p else .ok p.module.idBound p.nextBound := by
  unfold takeId
  rw [get_bind]
  split <;> rfl

theorem agrees_takeId : Agrees (Alike ρ) takeId takeId Eq := by
  intro p q alike
  rw [takeId_apply, takeId_apply, alike.module.idBound]
  split
  · exact .error ..
  · exact .ok rfl alike.nextBound

theorem agrees_newInst (i : Instruction) : Agrees (Alike ρ) (newInst i) (newInst i) ρ.insts :=
  fun _ _ alike => .ok (alike.fresh 0) (alike.made i)

theorem agrees_append (place : Section) (paired : ρ.insts r s) :
    Agrees (Alike ρ) (append place r) (append place s) Eq :=
  .modify fun _ _ alike => alike.appended place paired

theorem agrees_declare (place : Section) (i : Instruction) :
    Agrees (Alike ρ) (declare place i) (declare place i) ρ.insts :=
  (agrees_newInst i).bind fun _ _ paired => (agrees_append place paired).bind fun _ _ _ => .pure paired

theorem agrees_addOperand (operand : Operand) (paired : ρ.insts r s) :
    Agrees (Alike ρ) (addOperand r operand) (addOperand s operand) Eq :=
  .modify fun _ _ alike => alike.withOperand operand paired

end Agreement

end Program

end BlockTally
