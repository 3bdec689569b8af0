import BlockTally.Proofs.Program.Linked
import Mathlib.Data.List.Nodup

/-! Where new instructions come to stand in the layout of a module. -/

set_option autoImplicit false

namespace BlockTally

open scoped List

/-- If one of the lists that make up a list gets longer in the middle, so does the whole. The entry tells the list
from the others. -/
theorem exists_split_flatMap {α β : Type} {f g : α → List β} {parts : List α} {a : α} {entry : β}
    {front middle back : List β} (distinct : (parts.flatMap f).Nodup) (member : a ∈ parts) (inside : entry ∈ f a)
    (others : ∀ c ∈ parts, entry ∉ f c → g c = f c) (before : f a = front ++ back)
    (after : g a = front ++ middle ++ back) :
    ∃ front back, parts.flatMap f = front ++ back ∧ parts.flatMap g = front ++ middle ++ back := by
  obtain ⟨first, last, rfl⟩ := List.append_of_mem member
  rw [List.flatMap_append, List.flatMap_cons, List.nodup_append, List.nodup_append] at distinct
  obtain ⟨-, ⟨-, -, later⟩, earlier⟩ := distinct
  have firsts : first.flatMap g = first.flatMap f := by
    refine List.flatMap_congr fun c among => others c (List.mem_append_left _ among) fun again => ?_
    exact earlier _ (List.mem_flatMap.mpr ⟨c, among, again⟩) _ (List.mem_append_left _ inside) rfl
  have lasts : last.flatMap g = last.flatMap f := by
    refine List.flatMap_congr fun c among => ?_
    refine others c (List.mem_append_right _ (List.mem_cons_of_mem _ among)) fun again => ?_
    exact later _ inside _ (List.mem_flatMap.mpr ⟨c, among, again⟩) rfl
  refine ⟨first.flatMap f ++ front, back ++ last.flatMap f, ?_, ?_⟩
  · simp only [List.flatMap_append, List.flatMap_cons, before, List.append_assoc]
  · simp only [List.flatMap_append, List.flatMap_cons, after, firsts, lasts, List.append_assoc]

/-- A new entry of a section has the later sections behind it, and a new declaration nothing. -/
theorem Module.exists_split_setList (m : Module) {place : Section} (r : InstRef) (isOpen : place.isOpen = true) :
    ∃ front back, m.globals = front ++ back ∧
      (m.setList place (m.list place ++ [r])).globals = front ++ [r] ++ back ∧ (place = .typesValues → back = []) := by
  cases place with
  | capabilities =>
    refine ⟨m.capabilities, m.extensions ++ m.extInstImports ++ m.memoryModel.toList ++ m.entryPoints ++
      m.executionModes ++ m.debugs1 ++ m.debugs2 ++ m.debugs3 ++ m.annotations ++ m.typesValues, ?_, ?_, ?_⟩ <;>
      simp [globals, setList, list]
  | extensions =>
    refine ⟨m.capabilities ++ m.extensions, m.extInstImports ++ m.memoryModel.toList ++ m.entryPoints ++
      m.executionModes ++ m.debugs1 ++ m.debugs2 ++ m.debugs3 ++ m.annotations ++ m.typesValues, ?_, ?_, ?_⟩ <;>
      simp [globals, setList, list]
  | debugs2 =>
    refine ⟨m.capabilities ++ m.extensions ++ m.extInstImports ++ m.memoryModel.toList ++ m.entryPoints ++
      m.executionModes ++ m.debugs1 ++ m.debugs2, m.debugs3 ++ m.annotations ++ m.typesValues, ?_, ?_, ?_⟩ <;>
      simp [globals, setList, list]
  | annotations =>
    refine ⟨m.capabilities ++ m.extensions ++ m.extInstImports ++ m.memoryModel.toList ++ m.entryPoints ++
      m.executionModes ++ m.debugs1 ++ m.debugs2 ++ m.debugs3 ++ m.annotations, m.typesValues, ?_, ?_, ?_⟩ <;>
      simp [globals, setList, list]
  | typesValues => refine ⟨m.globals, [], ?_, ?_, fun _ => rfl⟩ <;> simp [globals, setList, list]
  | extInstImports | entryPoints | executionModes | debugs1 | debugs3 => cases isOpen

namespace Program

variable {p q : Program} {b : BlockRef} {r : InstRef} {refs : List InstRef}

def functionPart (p : Program) : List InstRef :=
  p.module.functions.flatMap p.functionInsts

theorem allInsts_eq (p : Program) : p.allInsts = p.module.globals ++ p.functionPart := rfl

theorem functionPart_subset (p : Program) : p.functionPart ⊆ p.allInsts :=
  List.subset_append_right _ _

theorem Grows.functionPart (h : p.Grows q) (blocks : q.blocks = p.blocks) : q.functionPart = p.functionPart := by
  unfold Program.functionPart
  rw [h.functionInsts blocks, h.module.functions]

/-- A new entry of a section stands somewhere before the functions, and a new declaration right before them. -/
theorem exists_split_appended (p : Program) {place : Section} (r : InstRef) (isOpen : place.isOpen = true) :
    ∃ front back, p.allInsts = front ++ back ∧ (p.appended place r).allInsts = front ++ [r] ++ back ∧
      (place = .typesValues → back = p.functionPart) := by
  obtain ⟨front, back, before, after, last⟩ := p.module.exists_split_setList r isOpen
  have inside := (p.grows_appended r isOpen).functionPart rfl
  refine ⟨front, back ++ p.functionPart, ?_, ?_, fun types => ?_⟩
  · rw [allInsts_eq, before, List.append_assoc]
  · rw [allInsts_eq, inside, ← List.append_assoc]
    exact congrArg (· ++ p.functionPart) after
  · rw [last types]
    rfl

/-! ### Insertion into a block -/

section Inserted
variable {f : FuncRef} {gap : Nat}

theorem functionInsts_eq : p.functionInsts f = (p.function f).definition :: (p.function f).parameters ++
    (p.function f).blocks.flatMap p.blockInsts ++ [(p.function f).endMark] := rfl

theorem functionInsts_inserted : (p.inserted b gap refs).functionInsts f =
    (p.function f).definition :: (p.function f).parameters ++
      (p.function f).blocks.flatMap (p.inserted b gap refs).blockInsts ++ [(p.function f).endMark] := by
  have same : (p.inserted b gap refs).function f = p.function f := function_inserted f
  rw [← same, functionInsts_eq]

theorem functionInsts_inserted_of_not_mem (elsewhere : b ∉ (p.function f).blocks) :
    (p.inserted b gap refs).functionInsts f = p.functionInsts f := by
  rw [functionInsts_inserted, functionInsts_eq, List.flatMap_congr fun c among => blockInsts_inserted_of_ne ?_]
  rintro rfl
  exact elsewhere among

/-- The label of a block tells its function from the others. -/
theorem label_mem_functionInsts (member : b ∈ (p.function f).blocks) : (p.block b).label ∈ p.functionInsts f :=
  List.mem_append_left _ (List.mem_append_right _ (List.mem_flatMap.mpr ⟨b, member, List.mem_cons_self ..⟩))

theorem exists_split_blockInsts (gap : Nat) (refs : List InstRef) (old : b.index < p.blocks.size) :
    ∃ front back, p.blockInsts b = front ++ back ∧ (p.inserted b gap refs).blockInsts b = front ++ refs ++ back := by
  refine ⟨(p.block b).label :: (p.body b).take gap, (p.body b).drop gap, ?_, ?_⟩
  · rw [List.cons_append, List.take_append_drop]
    rfl
  · simp [blockInsts, body, block_inserted old]

theorem exists_split_functionInsts (gap : Nat) (refs : List InstRef) (distinct : (p.functionInsts f).Nodup)
    (member : b ∈ (p.function f).blocks) (old : b.index < p.blocks.size) : ∃ front back,
      p.functionInsts f = front ++ back ∧ (p.inserted b gap refs).functionInsts f = front ++ refs ++ back := by
  obtain ⟨front, back, before, after⟩ := p.exists_split_blockInsts gap refs old
  have inner : ((p.function f).blocks.flatMap p.blockInsts).Nodup :=
    (List.nodup_append.mp (List.nodup_append.mp distinct).1).2.1
  have others (c : BlockRef) (other : (p.block b).label ∉ p.blockInsts c) :
      (p.inserted b gap refs).blockInsts c = p.blockInsts c := by
    refine blockInsts_inserted_of_ne ?_
    rintro rfl
    exact other (List.mem_cons_self ..)
  obtain ⟨front, back, before, after⟩ :=
    exists_split_flatMap inner member (List.mem_cons_self ..) (fun c _ => others c) before after
  refine ⟨(p.function f).definition :: (p.function f).parameters ++ front, back ++ [(p.function f).endMark], ?_, ?_⟩
  · rw [functionInsts_eq, before]
    simp
  · rw [functionInsts_inserted, after]
    simp

/-- Instructions that are put into a block stay together. -/
theorem exists_split_inserted (gap : Nat) (refs : List InstRef) (distinct : p.allInsts.Nodup)
    (listed : b ∈ p.listedBlocks) (old : b.index < p.blocks.size) :
    ∃ front back, p.functionPart = front ++ back ∧ (p.inserted b gap refs).functionPart = front ++ refs ++ back := by
  obtain ⟨f, member, among⟩ := mem_listedBlocks.mp listed
  have distinct : p.functionPart.Nodup := (List.nodup_append.mp distinct).2.1
  have inner : (p.functionInsts f).Nodup := (List.nodup_flatMap.mp distinct).1 f member
  obtain ⟨front, back, before, after⟩ := p.exists_split_functionInsts gap refs inner among old
  have others (g : FuncRef) (elsewhere : (p.block b).label ∉ p.functionInsts g) :
      (p.inserted b gap refs).functionInsts g = p.functionInsts g :=
    functionInsts_inserted_of_not_mem fun here => elsewhere (label_mem_functionInsts here)
  rw [functionPart, functionPart, module_inserted]
  exact exists_split_flatMap distinct member (label_mem_functionInsts among) (fun g _ => others g) before after

theorem allInsts_inserted_of_nodup (gap : Nat) (refs : List InstRef) (distinct : p.allInsts.Nodup)
    (listed : b ∈ p.listedBlocks) (old : b.index < p.blocks.size) :
    (p.inserted b gap refs).allInsts ~ p.allInsts ++ refs := by
  obtain ⟨front, back, before, after⟩ := p.exists_split_inserted gap refs distinct listed old
  calc (p.inserted b gap refs).allInsts
    _ = p.module.globals ++ front ++ (refs ++ back) := by
      rw [allInsts_eq, module_inserted, after]
      simp only [List.append_assoc]
    _ ~ p.module.globals ++ front ++ (back ++ refs) := List.perm_append_comm.append_left _
    _ = p.allInsts ++ refs := by
      rw [allInsts_eq, before]
      simp only [List.append_assoc]

end Inserted

end Program

end BlockTally
