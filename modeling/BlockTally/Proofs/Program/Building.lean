import BlockTally.Proofs.Program.Allotment
import BlockTally.Proofs.Program.Layout

/-! Functions, blocks and parameters that are added to a module.

Whether the module lists the function that gets a block or a parameter does not matter: it defines no more than the new
results.
-/

set_option autoImplicit false

namespace BlockTally.Program

open scoped List

variable {p p₁ q : Program} {ids : List Id} {f g : FuncRef} {b c : BlockRef} {r : InstRef} {i : Instruction}
  {new more : List InstRef}

theorem function_changeFunction (p : Program) (f g : FuncRef) (change : Function → Function) :
    (p.changeFunction f change).function g =
      if f = g ∧ f.index < p.functions.size then change (p.function f) else p.function g := by
  have names : f.index = g.index ↔ f = g := by cases f; cases g; simp
  simp only [function, changeFunction, Arena.get_update, names]

theorem function_changeFunction_of_ne {change : Function → Function} (other : g ≠ f) :
    (p.changeFunction f change).function g = p.function g := by
  rw [function_changeFunction, if_neg fun same => other same.1.symm]

theorem allInsts_subperm (globals : q.module.globals = p.module.globals)
    (frames : q.module.functions.flatMap q.functionFrame <+~ new ++ p.module.functions.flatMap p.functionFrame)
    (blocks : q.listedBlocks.flatMap q.blockInsts <+~ more ++ p.listedBlocks.flatMap p.blockInsts) :
    q.allInsts <+~ new ++ more ++ p.allInsts := by
  rw [List.subperm_ext_iff]
  intro r _
  have before := p.allInsts_perm.count_eq r
  have after := q.allInsts_perm.count_eq r
  have frames := frames.count_le r
  have blocks := blocks.count_le r
  simp only [frame, globals, List.count_append] at before after frames blocks ⊢
  omega

/-! ### The memory model -/

def withModel (p : Program) (r : InstRef) : Program :=
  { p with module := { p.module with memoryModel := some r } }

theorem Owes.withModel (h : p.Owes ids p₁ i.ownIds) : p.Allots ids ((p₁.made i).withModel ⟨p₁.instructions.size⟩) := by
  refine h.made.list (p₁.hold_made i) rfl (fun _ => rfl) rfl fun laid => ⟨?_, laid.congr rfl rfl rfl⟩
  rw [List.subperm_ext_iff]
  intro r _
  have same : ((p₁.made i).withModel ⟨p₁.instructions.size⟩).functionPart = (p₁.made i).functionPart := rfl
  rw [allInsts_eq, allInsts_eq, same]
  simp only [Module.globals, Program.withModel, Option.toList_some, List.count_append]
  omega

/-! ### Parameters -/

def withParameter (p : Program) (f : FuncRef) (r : InstRef) : Program :=
  p.changeFunction f fun function => { function with parameters := function.parameters ++ [r] }

theorem after_addParameter {good : Unit → Program → Prop} {bad : Error → Program → Prop}
    (opcode : (p.inst r).opcode = .functionParameter) (h : good () (p.withParameter f r)) :
    Change.After (addParameter f r) p good bad := by
  unfold addParameter
  refine .bind_get ?_
  simp only [opcode, if_true]
  exact .modify h

theorem listedBlocks_withParameter : (p.withParameter f r).listedBlocks = p.listedBlocks := by
  refine List.flatMap_congr fun g _ => ?_
  rw [withParameter, function_changeFunction]
  split
  next same => rw [same.1]
  next => rfl

theorem allInsts_withParameter_subperm (laid : p.Laid) : (p.withParameter f r).allInsts <+~ [r] ++ p.allInsts := by
  have here : (p.withParameter f r).functionFrame f <+~ [r] ++ p.functionFrame f := by
    rw [List.subperm_ext_iff]
    intro s _
    unfold functionFrame
    rw [withParameter, function_changeFunction]
    split <;> simp only [List.count_append, List.count_cons, List.count_nil] <;> omega
  have others (g : FuncRef) (other : g ≠ f) : (p.withParameter f r).functionFrame g = p.functionFrame g := by
    unfold functionFrame
    rw [withParameter, function_changeFunction_of_ne other]
  refine allInsts_subperm (p := p) (q := p.withParameter f r) rfl (flatMap_subperm laid.functions here others) ?_
  rw [listedBlocks_withParameter]
  exact List.Subperm.refl _

theorem Laid.withParameter (h : p.Laid) : (p.withParameter f r).Laid where
  functions := h.functions
  blocks := by
    rw [listedBlocks_withParameter]
    exact h.blocks
  functionsHeld g member := by
    rw [Program.withParameter, changeFunction, Arena.size_update]
    exact h.functionsHeld g member
  blocksHeld := by
    rw [listedBlocks_withParameter]
    exact h.blocksHeld

theorem Owes.withParameter (h : p.Owes ids p₁ i.ownIds) (f : FuncRef) :
    p.Allots ids ((p₁.made i).withParameter f ⟨p₁.instructions.size⟩) :=
  h.made.list (p₁.hold_made i) rfl (fun _ => rfl) rfl fun laid =>
    ⟨allInsts_withParameter_subperm laid, laid.withParameter⟩

/-! ### Blocks -/

def withBlock (p : Program) (f : FuncRef) (label : InstRef) : Program :=
  ({ p with blocks := p.blocks.push { label, function := some f } }).changeFunction f fun function =>
    { function with blocks := function.blocks ++ [BlockRef.mk p.blocks.size] }

theorem after_newBlock {good : BlockRef → Program → Prop} {bad : Error → Program → Prop}
    (opcode : (p.inst r).opcode = .label)
    (h : good ⟨p.blocks.size⟩ { p with blocks := p.blocks.push { label := r } }) :
    Change.After (newBlock r) p good bad := by
  unfold newBlock
  refine .bind_get ?_
  simp only [opcode, if_true]
  exact h

theorem after_addBlock {good : Unit → Program → Prop} {bad : Error → Program → Prop} (h : good () (p.withBlock f r)) :
    Change.After (addBlock f ⟨p.blocks.size⟩) { p with blocks := p.blocks.push { label := r } } good bad := by
  have same : (p.blocks.push { label := r }).update p.blocks.size (fun block => { block with function := some f }) =
      p.blocks.push { label := r, function := some f } := by
    refine congrArg Arena.mk (Array.ext_getElem? fun k => ?_)
    simp only [Arena.push, Arena.get, Arena.size, Array.getElem?_setIfInBounds, Array.getElem?_push, Array.size_push]
    grind
  unfold withBlock at h
  rw [← same] at h
  exact .modify h

theorem listedBlocks_withBlock_subperm (laid : p.Laid) :
    (p.withBlock f r).listedBlocks <+~ [⟨p.blocks.size⟩] ++ p.listedBlocks := by
  refine flatMap_subperm laid.functions (a := f) ?_ fun g other => ?_
  · rw [withBlock, function_changeFunction]
    split
    · exact List.perm_append_comm.subperm
    · exact (List.sublist_append_right ..).subperm
  · rw [withBlock, function_changeFunction_of_ne other]
    rfl

theorem Laid.blocks_fresh (laid : p.Laid) : (⟨p.blocks.size⟩ : BlockRef) ∉ p.listedBlocks :=
  fun member => Nat.lt_irrefl _ (laid.blocksHeld _ member)

theorem label_withBlock : ((p.withBlock f r).block ⟨p.blocks.size⟩).label = r := by
  simp only [block, withBlock, changeFunction, Arena.get_push, if_true]

theorem allInsts_withBlock_subperm (laid : p.Laid) : (p.withBlock f r).allInsts <+~ [r] ++ p.allInsts := by
  have frames : (p.withBlock f r).module.functions.flatMap (p.withBlock f r).functionFrame <+~
      [] ++ p.module.functions.flatMap p.functionFrame := by
    refine List.Perm.subperm (.of_eq (List.flatMap_congr fun g _ => ?_))
    unfold functionFrame
    rw [withBlock, function_changeFunction]
    split
    next same => rw [same.1]; rfl
    next => rfl
  have own : (p.withBlock f r).blockInsts ⟨p.blocks.size⟩ = [r] := by
    simp [blockInsts, body, block, withBlock, changeFunction, Arena.get_push]
  have old : p.listedBlocks.flatMap (p.withBlock f r).blockInsts = p.listedBlocks.flatMap p.blockInsts := by
    refine List.flatMap_congr fun c member => ?_
    simp only [blockInsts, body, block, withBlock, changeFunction, Arena.get_push_of_lt _ _ (laid.blocksHeld c member)]
  have blocks : (p.withBlock f r).listedBlocks.flatMap (p.withBlock f r).blockInsts <+~
      [r] ++ p.listedBlocks.flatMap p.blockInsts := by
    obtain ⟨between, perm, among⟩ := listedBlocks_withBlock_subperm (f := f) (r := r) laid
    have all := among.flatMap (p.withBlock f r).blockInsts
    rw [List.flatMap_append, List.flatMap_singleton, own, old] at all
    exact ⟨_, perm.flatMap_right _, all⟩
  exact allInsts_subperm (p := p) (q := p.withBlock f r) rfl frames blocks

theorem Laid.withBlock (h : p.Laid) : (p.withBlock f r).Laid where
  functions := h.functions
  blocks := by
    obtain ⟨between, perm, among⟩ := listedBlocks_withBlock_subperm (f := f) (r := r) h
    refine perm.nodup_iff.mp (List.Nodup.sublist among ?_)
    exact List.nodup_cons.mpr ⟨h.blocks_fresh, h.blocks⟩
  functionsHeld g member := by
    rw [Program.withBlock, changeFunction, Arena.size_update]
    exact h.functionsHeld g member
  blocksHeld b member := by
    have size : (p.withBlock f r).blocks.size = p.blocks.size + 1 := Arena.size_push ..
    rw [size]
    rcases List.mem_cons.mp ((listedBlocks_withBlock_subperm h).subset member) with rfl | old
    · exact Nat.lt_succ_self _
    · exact Nat.lt_succ_of_lt (h.blocksHeld b old)

theorem Owes.withBlock (h : p.Owes ids p₁ i.ownIds) (f : FuncRef) :
    p.Allots ids ((p₁.made i).withBlock f ⟨p₁.instructions.size⟩) :=
  h.made.list (p₁.hold_made i) rfl (fun _ => rfl) rfl fun laid => ⟨allInsts_withBlock_subperm laid, laid.withBlock⟩

/-! ### Instructions at the end of a block -/

theorem after_addInst {good : Unit → Program → Prop} {bad : Error → Program → Prop}
    (h : good () (p.inserted b (p.body b).length [r])) : Change.After (addInst b r) p good bad := by
  have same : (p.place r (some b)).changeBlock b (fun block => { block with body := block.body ++ [r] }) =
      p.inserted b (p.body b).length [r] := by
    have blocks : (p.place r (some b)).blocks = p.blocks := rfl
    simp only [inserted, placed, List.foldl_cons, List.foldl_nil, changeBlock, Arena.update, blocks, body, block,
      List.take_length, List.drop_length, List.append_nil]
  exact .modify (same ▸ h)

/-! ### Functions -/

def withFunction (p : Program) (definition endMark : InstRef) : Program :=
  { p with
    functions := p.functions.push { definition, endMark, added := true }
    module := { p.module with functions := p.module.functions ++ [⟨p.functions.size⟩] } }

theorem after_newFunction {good : FuncRef → Program → Prop} {bad : Error → Program → Prop}
    (opcode : (p.inst r).opcode = .function)
    (h : good ⟨p.functions.size⟩ { p.made { opcode := .functionEnd } with
      functions := p.functions.push { definition := r, endMark := ⟨p.instructions.size⟩ } }) :
    Change.After (newFunction r) p good bad := by
  unfold newFunction
  refine .bind_get ?_
  simp only [opcode, if_true]
  exact h

theorem after_addFunction {endMark : InstRef} {good : Unit → Program → Prop} {bad : Error → Program → Prop}
    (h : good () (p.withFunction r endMark)) : Change.After (addFunction ⟨p.functions.size⟩)
      { p with functions := p.functions.push { definition := r, endMark } } good bad := by
  have same : (p.functions.push { definition := r, endMark }).update p.functions.size
      (fun function => { function with added := true }) =
        p.functions.push { definition := r, endMark, added := true } := by
    refine congrArg Arena.mk (Array.ext_getElem? fun k => ?_)
    simp only [Arena.push, Arena.get, Arena.size, Array.getElem?_setIfInBounds, Array.getElem?_push, Array.size_push]
    grind
  unfold withFunction at h
  rw [← same] at h
  exact .modify h

theorem function_withFunction_of_lt {endMark : InstRef} (old : g.index < p.functions.size) :
    (p.withFunction r endMark).function g = p.function g := by
  simp only [function, withFunction, Arena.get_push_of_lt _ _ old]

theorem function_withFunction {endMark : InstRef} :
    (p.withFunction r endMark).function ⟨p.functions.size⟩ = { definition := r, endMark, added := true } := by
  simp only [function, withFunction, Arena.get_push, if_true]

theorem allInsts_withFunction {endMark : InstRef} (laid : p.Laid) :
    (p.withFunction r endMark).allInsts = p.allInsts ++ [r, endMark] := by
  have old : p.module.functions.flatMap (p.withFunction r endMark).functionInsts =
      p.module.functions.flatMap p.functionInsts := by
    refine List.flatMap_congr fun g member => ?_
    unfold functionInsts
    rw [function_withFunction_of_lt (laid.functionsHeld g member)]
    rfl
  have own : (p.withFunction r endMark).functionInsts ⟨p.functions.size⟩ = [r, endMark] := by
    unfold functionInsts
    rw [function_withFunction]
    rfl
  have listed : (p.withFunction r endMark).module.functions = p.module.functions ++ [⟨p.functions.size⟩] := rfl
  rw [allInsts, listed, List.flatMap_append, old, List.flatMap_singleton, own, ← List.append_assoc]
  rfl

theorem listedBlocks_withFunction {endMark : InstRef} (laid : p.Laid) :
    (p.withFunction r endMark).listedBlocks = p.listedBlocks := by
  have old : p.module.functions.flatMap (fun g => ((p.withFunction r endMark).function g).blocks) = p.listedBlocks := by
    refine List.flatMap_congr fun g member => ?_
    rw [function_withFunction_of_lt (laid.functionsHeld g member)]
  have listed : (p.withFunction r endMark).module.functions = p.module.functions ++ [⟨p.functions.size⟩] := rfl
  rw [listedBlocks, listed, List.flatMap_append, old, List.flatMap_singleton, function_withFunction, List.append_nil]

theorem Laid.withFunction {endMark : InstRef} (h : p.Laid) : (p.withFunction r endMark).Laid where
  functions := by
    refine List.nodup_append.mpr ⟨h.functions, List.pairwise_singleton .., fun g member other last => ?_⟩
    obtain rfl := List.mem_singleton.mp last
    rintro rfl
    exact Nat.lt_irrefl _ (h.functionsHeld _ member)
  blocks := by
    rw [listedBlocks_withFunction h]
    exact h.blocks
  functionsHeld g member := by
    have size : (p.withFunction r endMark).functions.size = p.functions.size + 1 := Arena.size_push ..
    rw [size]
    rcases List.mem_append.mp member with old | last
    · exact Nat.lt_succ_of_lt (h.functionsHeld g old)
    · obtain rfl := List.mem_singleton.mp last
      exact Nat.lt_succ_self _
  blocksHeld := by
    rw [listedBlocks_withFunction h]
    exact h.blocksHeld

/-- The end mark of a function has no result. -/
theorem Owes.withFunction (h : p.Owes ids p₁ i.ownIds) : p.Allots ids
    (((p₁.made i).made { opcode := .functionEnd }).withFunction ⟨p₁.instructions.size⟩
      ⟨(p₁.made i).instructions.size⟩) := by
  let q := (p₁.made i).made { opcode := .functionEnd }
  let refs : List InstRef := [⟨p₁.instructions.size⟩, ⟨(p₁.made i).instructions.size⟩]
  have definition : (p₁.made i).Holds ⟨p₁.instructions.size⟩ := p₁.holds_made i
  have own : q.idsOf refs = i.ownIds := by
    rw [idsOf_cons, idsOf_cons, inst_made, inst_made_of_lt _ definition, inst_made]
    exact List.append_nil _
  have owes : p.Owes ids q (q.idsOf refs) := own ▸ (h.edit (allots_made i)).edit (allots_made _)
  refine owes.list (List.forall_mem_cons.mpr ⟨?_, (p₁.made i).hold_made _⟩) rfl (fun _ => rfl) rfl fun laid =>
    ⟨?_, laid.withFunction⟩
  · exact Nat.lt_of_lt_of_eq (Nat.lt_succ_of_lt definition) (Program.size_made ..).symm
  · rw [allInsts_withFunction laid]
    exact List.perm_append_comm.subperm

end BlockTally.Program
