import BlockTally.Proofs.Program.Growth
import Mathlib.Data.List.Perm.Basic

/-! Insertions into blocks.

The instructions of a module fall into a frame and the contents of its blocks, up to order. An insertion
into a block that is listed once adds the new instructions to them once.
-/

set_option autoImplicit false

namespace BlockTally.Program

open scoped List

def listedBlocks (p : Program) : List BlockRef :=
  p.module.functions.flatMap fun f => (p.function f).blocks

def blockInsts (p : Program) (b : BlockRef) : List InstRef :=
  (p.block b).label :: p.body b

/-- What a function lists outside of its blocks. -/
def functionFrame (p : Program) (f : FuncRef) : List InstRef :=
  (p.function f).definition :: (p.function f).parameters ++ [(p.function f).endMark]

def frame (p : Program) : List InstRef :=
  p.module.globals ++ p.module.functions.flatMap p.functionFrame

theorem functionInsts_perm (p : Program) (f : FuncRef) :
    p.functionInsts f ~ p.functionFrame f ++ (p.function f).blocks.flatMap p.blockInsts := by
  simp only [functionInsts, functionFrame, List.append_assoc]
  exact List.perm_append_comm.append_left _

theorem allInsts_perm (p : Program) :
    p.allInsts ~ p.frame ++ p.listedBlocks.flatMap p.blockInsts := by
  unfold allInsts frame listedBlocks
  rw [List.append_assoc, List.flatMap_assoc]
  apply List.Perm.append_left _
  exact (List.Perm.flatMap_left _ fun f _ => p.functionInsts_perm f).trans
    (List.flatMap_append_perm _ _ _).symm

theorem mem_allInsts {p : Program} {r : InstRef} :
    r ∈ p.allInsts ↔ r ∈ p.frame ∨ ∃ b ∈ p.listedBlocks, r ∈ p.blockInsts b := by
  rw [p.allInsts_perm.mem_iff, List.mem_append, List.mem_flatMap]

theorem mem_listedBlocks {p : Program} {b : BlockRef} :
    b ∈ p.listedBlocks ↔ ∃ f ∈ p.module.functions, b ∈ (p.function f).blocks :=
  List.mem_flatMap

/-! ### The program after an insertion -/

def placed (p : Program) (b : BlockRef) (refs : List InstRef) : Program :=
  refs.foldl (fun p r => p.place r (some b)) p

def inserted (p : Program) (b : BlockRef) (gap : Nat) (refs : List InstRef) : Program :=
  (p.placed b refs).changeBlock b fun block =>
    { block with body := block.body.take gap ++ refs ++ block.body.drop gap }

theorem after_insertInsts {p : Program} {b : BlockRef} {gap : Nat} {refs : List InstRef}
    {good : Unit → Program → Prop} {bad : Error → Program → Prop} (h : good () (p.inserted b gap refs)) :
    Change.After (insertInsts b gap refs) p good bad := h

theorem inst_place (p : Program) (r s : InstRef) (b : Option BlockRef) :
    (p.place r b).inst s = p.inst s := by
  simp only [inst, place, Arena.get_update]
  split
  next same => simp only [same.1]
  next => rfl

theorem blockOf_place (p : Program) {r s : InstRef} (b : Option BlockRef) (differ : s ≠ r) :
    (p.place r b).blockOf? s = p.blockOf? s := by
  simp only [blockOf?, place, Arena.get_update]
  rw [if_neg]
  rintro ⟨same, -⟩
  exact differ (congrArg InstRef.mk same.symm)

theorem blockOf_place_self {p : Program} {r : InstRef} (b : Option BlockRef) (old : p.Holds r) :
    (p.place r b).blockOf? r = b := by
  unfold Holds at old
  simp only [blockOf?, place, Arena.get_update, old, and_self, if_true]

/-- Placing changes nothing but the recorded blocks of what is placed. -/
theorem placed_spec (p : Program) (b : BlockRef) (refs : List InstRef) :
    (p.placed b refs).blocks = p.blocks ∧ (p.placed b refs).functions = p.functions ∧
      (p.placed b refs).module = p.module ∧
      (p.placed b refs).instructions.size = p.instructions.size ∧
      (∀ r, (p.placed b refs).inst r = p.inst r) ∧
      (∀ r ∉ refs, (p.placed b refs).blockOf? r = p.blockOf? r) ∧
      ∀ r ∈ refs, p.Holds r → (p.placed b refs).blockOf? r = some b := by
  induction refs generalizing p with
  | nil => exact ⟨rfl, rfl, rfl, rfl, fun _ => rfl, fun _ _ => rfl, nofun⟩
  | cons s rest ih =>
    obtain ⟨blocks, functions, module, size, inst, others, own⟩ := ih (p.place s (some b))
    have size' : (p.place s (some b)).instructions.size = p.instructions.size := Arena.size_update ..
    refine ⟨blocks, functions, module, size.trans size', ?_, ?_, ?_⟩
    · intro r
      exact (inst r).trans (p.inst_place s r _)
    · intro r absent
      simp only [List.mem_cons, not_or] at absent
      exact (others r absent.2).trans (p.blockOf_place _ absent.1)
    · intro r member old
      by_cases again : r ∈ rest
      · exact own r again (by simpa only [Holds, size'] using old)
      · obtain rfl := (List.mem_cons.mp member).resolve_right again
        exact (others r again).trans (p.blockOf_place_self _ old)

section
variable {p : Program} {b : BlockRef} {gap : Nat} {refs : List InstRef}

@[simp] theorem module_inserted : (p.inserted b gap refs).module = p.module :=
  (p.placed_spec b refs).2.2.1

@[simp] theorem functions_inserted : (p.inserted b gap refs).functions = p.functions :=
  (p.placed_spec b refs).2.1

@[simp] theorem size_inserted : (p.inserted b gap refs).instructions.size = p.instructions.size :=
  (p.placed_spec b refs).2.2.2.1

@[simp] theorem size_blocks_inserted : (p.inserted b gap refs).blocks.size = p.blocks.size :=
  (Arena.size_update ..).trans (congrArg Arena.size (p.placed_spec b refs).1)

@[simp] theorem holds_inserted {r : InstRef} : (p.inserted b gap refs).Holds r ↔ p.Holds r := by
  simp only [Holds, size_inserted]

@[simp] theorem inst_inserted (r : InstRef) : (p.inserted b gap refs).inst r = p.inst r :=
  (p.placed_spec b refs).2.2.2.2.1 r

@[simp] theorem function_inserted (f : FuncRef) : (p.inserted b gap refs).function f = p.function f := by
  simp only [function, functions_inserted]

theorem blockOf_inserted_of_not_mem {r : InstRef} (absent : r ∉ refs) :
    (p.inserted b gap refs).blockOf? r = p.blockOf? r :=
  (p.placed_spec b refs).2.2.2.2.2.1 r absent

theorem blockOf_inserted {r : InstRef} (member : r ∈ refs) (old : p.Holds r) :
    (p.inserted b gap refs).blockOf? r = some b :=
  (p.placed_spec b refs).2.2.2.2.2.2 r member old

theorem block_inserted_of_ne {c : BlockRef} (differ : c ≠ b) :
    (p.inserted b gap refs).block c = p.block c := by
  have blocks := (p.placed_spec b refs).1
  simp only [block, inserted, changeBlock, Arena.get_update, blocks]
  rw [if_neg]
  rintro ⟨same, -⟩
  exact differ (congrArg BlockRef.mk same.symm)

theorem block_inserted (old : b.index < p.blocks.size) :
    (p.inserted b gap refs).block b =
      { p.block b with body := (p.body b).take gap ++ refs ++ (p.body b).drop gap } := by
  have blocks := (p.placed_spec b refs).1
  simp only [block, body, inserted, changeBlock, Arena.get_update, blocks, old, and_self, if_true]

/-- Blocks keep their labels. -/
@[simp] theorem label_inserted (c : BlockRef) : ((p.inserted b gap refs).block c).label = (p.block c).label := by
  have blocks := (p.placed_spec b refs).1
  simp only [block, inserted, changeBlock, Arena.get_update, blocks]
  split
  next same => rw [same.1]
  next => rfl

theorem listedBlocks_inserted : (p.inserted b gap refs).listedBlocks = p.listedBlocks := by
  simp only [listedBlocks, module_inserted, function_inserted]

theorem frame_inserted : (p.inserted b gap refs).frame = p.frame := by
  have same : (p.inserted b gap refs).functionFrame = p.functionFrame := by
    funext f
    simp only [functionFrame, function_inserted]
  simp only [frame, module_inserted, same]

theorem blockInsts_inserted_of_ne {c : BlockRef} (differ : c ≠ b) :
    (p.inserted b gap refs).blockInsts c = p.blockInsts c := by
  simp only [blockInsts, body, block_inserted_of_ne differ]

theorem blockInsts_inserted_perm (old : b.index < p.blocks.size) :
    (p.inserted b gap refs).blockInsts b ~ refs ++ p.blockInsts b := by
  have split : (p.body b).take gap ++ refs ++ (p.body b).drop gap ~ refs ++ p.body b := by
    apply (List.perm_append_comm.append_right _).trans
    rw [List.append_assoc, List.take_append_drop]
  simp only [blockInsts, body, block_inserted old]
  exact (split.cons _).trans List.perm_middle.symm

/-- An insertion into a block that is listed once adds the inserted instructions. -/
theorem allInsts_inserted_perm {front back : List BlockRef} (old : b.index < p.blocks.size)
    (listed : p.listedBlocks = front ++ b :: back) (once : b ∉ front ∧ b ∉ back) :
    (p.inserted b gap refs).allInsts ~ refs ++ p.allInsts := by
  have others {blocks : List BlockRef} (absent : b ∉ blocks) :
      blocks.flatMap (p.inserted b gap refs).blockInsts = blocks.flatMap p.blockInsts := by
    refine List.flatMap_congr fun c member => blockInsts_inserted_of_ne ?_
    rintro rfl
    exact absent member
  have first := (p.inserted b gap refs).allInsts_perm
  rw [frame_inserted, listedBlocks_inserted, listed, List.flatMap_append, List.flatMap_cons,
    others once.1, others once.2] at first
  have last := p.allInsts_perm
  rw [listed, List.flatMap_append, List.flatMap_cons] at last
  refine first.trans (.trans ?_ (last.symm.append_left refs))
  -- The new instructions move from the block to the front of all.
  calc p.frame ++ (front.flatMap p.blockInsts ++
        ((p.inserted b gap refs).blockInsts b ++ back.flatMap p.blockInsts))
    _ ~ p.frame ++ (front.flatMap p.blockInsts ++
          (refs ++ p.blockInsts b ++ back.flatMap p.blockInsts)) :=
      (((blockInsts_inserted_perm old).append_right _).append_left _).append_left _
    _ ~ p.frame ++ (refs ++ (front.flatMap p.blockInsts ++
          (p.blockInsts b ++ back.flatMap p.blockInsts))) := by
      rw [List.append_assoc]
      exact (List.perm_append_comm_assoc ..).append_left _
    _ ~ refs ++ (p.frame ++ (front.flatMap p.blockInsts ++
          (p.blockInsts b ++ back.flatMap p.blockInsts))) := List.perm_append_comm_assoc ..

end

end BlockTally.Program
