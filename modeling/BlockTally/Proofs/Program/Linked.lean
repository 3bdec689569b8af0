import BlockTally.Proofs.Program.Insertion
import BlockTally.Proofs.Program.WellFormed
import Mathlib.Data.List.Flatten

/-! Ids while a module is changed.

Between the taking of an id and the listing of the instruction that it goes to, the id is pending: it is
spoken for, and nothing defines it yet. A module is linked when the defined and the pending ids are all
different, and when everything that is used is defined.
-/

set_option autoImplicit false

namespace BlockTally.Program

open scoped List

structure Linked (p : Program) (pending : List Id) : Prop where
  distinct : (p.resultIds ++ pending).Nodup
  bounded : ∀ id ∈ p.resultIds ++ pending, 0 < id ∧ id < p.module.idBound
  defined : ∀ r ∈ p.allInsts, ∀ v ∈ (p.inst r).usedIds, p.Defines v
  closed : ∀ r ∈ p.allInsts, p.Holds r
  positive : 0 < p.module.idBound

/-! ### Ids of lists of instructions -/

theorem idsOf_append (p : Program) (refs more : List InstRef) :
    p.idsOf (refs ++ more) = p.idsOf refs ++ p.idsOf more :=
  List.flatMap_append

theorem idsOf_perm (p : Program) {refs more : List InstRef} (same : refs ~ more) :
    p.idsOf refs ~ p.idsOf more :=
  same.flatMap_right _

theorem idsOf_sublist (p : Program) {refs more : List InstRef} (part : refs <+ more) :
    p.idsOf refs <+ p.idsOf more :=
  part.flatMap _

/-- A result id that is used once is not among those before. -/
theorem not_mem_idsOf {p : Program} {done rest : List InstRef} {r : InstRef} (result : (p.inst r).resultId ≠ 0)
    (distinct : (p.idsOf (done ++ r :: rest)).Nodup) : (p.inst r).resultId ∉ p.idsOf done := by
  intro earlier
  have own : (p.inst r).resultId ∈ p.idsOf (r :: rest) := mem_idsOf.mpr ⟨r, List.mem_cons_self .., rfl, result⟩
  rw [idsOf_append] at distinct
  exact (List.nodup_append.mp distinct).2.2 _ earlier _ own rfl

theorem typesValues_sublist (p : Program) : p.module.typesValues <+ p.allInsts :=
  (List.sublist_append_right _ _).trans (List.sublist_append_left _ _)

theorem ownIds_congr {i j : Instruction} (same : i.resultId = j.resultId) : i.ownIds = j.ownIds := by
  unfold Instruction.ownIds Instruction.hasResult
  rw [same]

theorem idsOf_congr {p q : Program} {refs : List InstRef}
    (same : ∀ r ∈ refs, (q.inst r).resultId = (p.inst r).resultId) : q.idsOf refs = p.idsOf refs :=
  List.flatMap_congr fun r member => ownIds_congr (same r member)

theorem defines_int {p : Program} {id : Id} : p.Defines (.int id) ↔ id ∈ p.resultIds := by
  simp [Defines]

theorem mem_resultIds {p : Program} {id : Id} :
    id ∈ p.resultIds ↔ ∃ r ∈ p.allInsts, (p.inst r).resultId = id ∧ id ≠ 0 :=
  mem_idsOf

/-- An instruction with a result that the module lists defines it. -/
theorem defines_of_mem {p : Program} {r : InstRef} (member : r ∈ p.allInsts) (result : (p.inst r).resultId ≠ 0) :
    p.Defines (.int (p.inst r).resultId) :=
  defines_int.mpr (mem_resultIds.mpr ⟨r, member, rfl, result⟩)

/-! ### What a module lists when it grows -/

theorem mem_globals {m : Module} {r : InstRef} :
    r ∈ m.globals ↔ m.memoryModel = some r ∨ ∃ place, r ∈ m.list place := by
  constructor
  · intro member
    simp only [Module.globals, List.mem_append, Option.mem_toList] at member
    rcases member with (((((((((member | member) | member) | member) | member) | member) | member) | member) |
      member) | member) | member
    · exact .inr ⟨.capabilities, member⟩
    · exact .inr ⟨.extensions, member⟩
    · exact .inr ⟨.extInstImports, member⟩
    · exact .inl member
    · exact .inr ⟨.entryPoints, member⟩
    · exact .inr ⟨.executionModes, member⟩
    · exact .inr ⟨.debugs1, member⟩
    · exact .inr ⟨.debugs2, member⟩
    · exact .inr ⟨.debugs3, member⟩
    · exact .inr ⟨.annotations, member⟩
    · exact .inr ⟨.typesValues, member⟩
  · rintro (model | ⟨place, member⟩)
    · simp [Module.globals, model]
    · cases place <;> simp only [Module.list] at member <;> simp [Module.globals, member]

theorem mem_allInsts_of_list {p : Program} {r : InstRef} (place : Section) (member : r ∈ p.module.list place) :
    r ∈ p.allInsts :=
  List.mem_append_left _ (mem_globals.mpr (.inr ⟨place, member⟩))

theorem Grows.globals_subset {p q : Program} (h : p.Grows q) {r : InstRef} (member : r ∈ p.module.globals) :
    r ∈ q.module.globals := by
  rcases mem_globals.mp member with model | ⟨place, member⟩
  · exact mem_globals.mpr (.inl (h.module.memoryModel.trans model))
  · exact mem_globals.mpr (.inr ⟨place, (h.module.longer place).subset member⟩)

theorem Grows.functionInsts {p q : Program} (h : p.Grows q) (blocks : q.blocks = p.blocks) :
    q.functionInsts = p.functionInsts := by
  funext f
  have block : q.block = p.block := by funext b; simp only [Program.block, blocks]
  have body : q.body = p.body := by funext b; simp only [Program.body, block]
  simp only [Program.functionInsts, h.function, block, body]

theorem Grows.allInsts_subset {p q : Program} (h : p.Grows q) (blocks : q.blocks = p.blocks) {r : InstRef}
    (member : r ∈ p.allInsts) : r ∈ q.allInsts := by
  rcases List.mem_append.mp member with outside | inside
  · exact List.mem_append_left _ (h.globals_subset outside)
  · apply List.mem_append_right _
    rwa [h.functionInsts blocks, h.module.functions]

/-- What is defined stays so when the module grows outside of its blocks. -/
theorem Linked.defines_of_grows {p q : Program} {pending : List Id} {v : Value} (linked : p.Linked pending)
    (h : p.Grows q) (blocks : q.blocks = p.blocks) (known : p.Defines v) : q.Defines v := by
  obtain ⟨id, among, rfl⟩ := known
  obtain ⟨r, member, rfl, result⟩ := mem_resultIds.mp among
  have same := h.resultId (linked.closed r member)
  rw [← same]
  exact defines_of_mem (h.allInsts_subset blocks member) (same ▸ result)

/-! ### Steps -/

variable {p q : Program} {pending : List Id}

/-- Pending ids may be given up. -/
theorem Linked.give_up (more : List Id) (h : p.Linked (more ++ pending)) : p.Linked pending where
  distinct := h.distinct.sublist ((List.sublist_append_right more pending).append_left _)
  bounded id member := by
    apply h.bounded id
    simp only [List.mem_append] at member ⊢
    tauto
  defined := h.defined
  closed := h.closed
  positive := h.positive

theorem Linked.reorder {more : List Id} (h : p.Linked pending) (same : pending ~ more) : p.Linked more where
  distinct := (same.append_left _).nodup_iff.mp h.distinct
  bounded id member := h.bounded id ((same.append_left _).mem_iff.mpr member)
  defined := h.defined
  closed := h.closed
  positive := h.positive

/-- The next id is different from all others. -/
theorem Linked.nextBound (h : p.Linked pending) : p.nextBound.Linked (p.module.idBound :: pending) where
  distinct := by
    have fresh : p.module.idBound ∉ p.resultIds ++ pending := fun member =>
      Int.lt_irrefl _ (h.bounded _ member).2
    exact (List.perm_middle.nodup_iff.mpr (List.nodup_cons.mpr ⟨fresh, h.distinct⟩) :
      (p.resultIds ++ p.module.idBound :: pending).Nodup)
  bounded id member := by
    rcases List.mem_cons.mp (List.perm_middle.mem_iff.mp member) with rfl | old
    · exact ⟨h.positive, Int.lt_succ _⟩
    · have := h.bounded id old
      exact ⟨this.1, Int.lt_trans this.2 (Int.lt_succ _)⟩
  defined := h.defined
  closed := h.closed
  positive := Int.lt_trans h.positive (Int.lt_succ _)

/-- The ids stay the same when nothing is listed and old instructions keep their results. -/
theorem Linked.of_same_ids (h : p.Linked pending) (module : q.module = p.module)
    (insts : q.allInsts = p.allInsts) (size : p.instructions.size ≤ q.instructions.size)
    (results : ∀ r, p.Holds r → (q.inst r).resultId = (p.inst r).resultId)
    (uses : ∀ r ∈ p.allInsts, ∀ v ∈ (q.inst r).usedIds, p.Defines v) : q.Linked pending := by
  have same : q.resultIds = p.resultIds := by
    unfold resultIds
    rw [insts]
    exact idsOf_congr fun r member => results r (h.closed r member)
  constructor
  case distinct =>
    rw [same]
    exact h.distinct
  case bounded =>
    rw [same, module]
    exact h.bounded
  case defined =>
    intro r member v used
    rw [insts] at member
    have known := uses r member v used
    unfold Defines at known ⊢
    rwa [same]
  case closed =>
    intro r member
    rw [insts] at member
    exact Nat.lt_of_lt_of_le (h.closed r member) size
  case positive =>
    rw [module]
    exact h.positive

theorem Linked.made (h : p.Linked pending) (i : Instruction) : (p.made i).Linked pending := by
  refine h.of_same_ids rfl rfl (by simp) (fun r old => by rw [inst_made_of_lt i old]) ?_
  intro r member v used
  rw [inst_made_of_lt i (h.closed r member)] at used
  exact h.defined r member v used

theorem usedIds_withOperand (p : Program) (r s : InstRef) {operand : Operand} {v : Value}
    (used : v ∈ ((p.withOperand r operand).inst s).usedIds) :
    v ∈ (p.inst s).usedIds ∨ operand.isId = true ∧ v = operand.value := by
  rw [withOperand, inst_changeInst] at used
  split at used
  next same =>
    obtain ⟨rfl, -⟩ := same
    simp only [Instruction.usedIds, Instruction.hasType, List.filter_append, List.map_append,
      List.mem_append] at used ⊢
    rcases used with used | used | used
    · exact .inl (.inl used)
    · exact .inl (.inr used)
    · by_cases isId : operand.isId = true
      · exact .inr ⟨isId, by simpa [isId] using used⟩
      · simp [isId] at used
  next => exact .inl used

theorem Linked.withOperand (h : p.Linked pending) (r : InstRef) {operand : Operand}
    (known : operand.isId = true → p.Defines operand.value) : (p.withOperand r operand).Linked pending := by
  refine h.of_same_ids rfl rfl (by simp) ?_ ?_
  · intro s _
    obtain ⟨more, same⟩ := p.inst_withOperand_extended r s operand
    rw [same]
    rfl
  · intro s member v used
    rcases p.usedIds_withOperand r s used with old | ⟨isId, rfl⟩
    · exact h.defined s member v old
    · exact known isId

/-- Pending ids are defined once the instructions that they go to are listed. -/
theorem Linked.listed (refs : List InstRef) (h : p.Linked (p.idsOf refs ++ pending))
    (insts : q.allInsts ~ refs ++ p.allInsts) (same : ∀ r, q.inst r = p.inst r)
    (size : q.instructions.size = p.instructions.size) (bound : q.module.idBound = p.module.idBound)
    (held : ∀ r ∈ refs, p.Holds r)
    (uses : ∀ r ∈ refs, ∀ v ∈ (p.inst r).usedIds, p.Defines v ∨ ∃ id ∈ p.idsOf refs, v = .int id) :
    q.Linked pending := by
  have ids : q.resultIds ~ p.idsOf refs ++ p.resultIds := by
    unfold resultIds
    rw [idsOf_congr (p := p) (q := q) fun r _ => by rw [same], ← idsOf_append]
    exact p.idsOf_perm insts
  -- The ids that were pending are results now, so altogether they are the same.
  have all : q.resultIds ++ pending ~ p.resultIds ++ (p.idsOf refs ++ pending) := by
    apply (ids.append_right _).trans
    rw [List.append_assoc]
    exact List.perm_append_comm_assoc ..
  have knows {v : Value} (known : p.Defines v ∨ ∃ id ∈ p.idsOf refs, v = .int id) : q.Defines v := by
    rcases known with ⟨id, member, rfl⟩ | ⟨id, member, rfl⟩
    · exact ⟨id, ids.mem_iff.mpr (List.mem_append_right _ member), rfl⟩
    · exact ⟨id, ids.mem_iff.mpr (List.mem_append_left _ member), rfl⟩
  constructor
  case distinct => exact all.nodup_iff.mpr h.distinct
  case bounded =>
    intro id member
    rw [bound]
    exact h.bounded id (all.mem_iff.mp member)
  case defined =>
    intro r member v used
    rw [same] at used
    rcases List.mem_append.mp (insts.mem_iff.mp member) with new | old
    · exact knows (uses r new v used)
    · exact knows (.inl (h.defined r old v used))
  case closed =>
    intro r member
    unfold Holds
    rw [size]
    rcases List.mem_append.mp (insts.mem_iff.mp member) with new | old
    · exact held r new
    · exact h.closed r old
  case positive =>
    rw [bound]
    exact h.positive

theorem globals_appended_perm (m : Module) (place : Section) (r : InstRef) :
    (m.setList place (m.list place ++ [r])).globals ~ r :: m.globals := by
  rw [List.perm_iff_count]
  intro s
  cases place <;> simp only [Module.globals, Module.setList, Module.list, List.count_append, List.count_cons,
    List.count_nil] <;> omega

theorem allInsts_appended_perm (p : Program) (place : Section) (r : InstRef) :
    (p.appended place r).allInsts ~ [r] ++ p.allInsts := by
  have functions : (p.appended place r).module.functions = p.module.functions := by cases place <;> rfl
  unfold allInsts
  rw [functions]
  exact (globals_appended_perm p.module place r).append_right _

theorem Linked.appended {r : InstRef} (h : p.Linked ((p.inst r).ownIds ++ pending)) (place : Section)
    (held : p.Holds r) (uses : ∀ v ∈ (p.inst r).usedIds, p.Defines v) : (p.appended place r).Linked pending := by
  have own : p.idsOf [r] = (p.inst r).ownIds := by simp [idsOf]
  refine Linked.listed [r] (own ▸ h) (p.allInsts_appended_perm place r) (fun _ => rfl) rfl ?_ ?_ ?_
  · cases place <;> rfl
  · exact List.forall_mem_singleton.mpr held
  · exact List.forall_mem_singleton.mpr fun v used => .inl (uses v used)

/-! ### Declarations -/

def declared (p : Program) (i : Instruction) : Program :=
  (p.nextBound.made i).appended .typesValues ⟨p.instructions.size⟩

theorem inst_declared (p : Program) (i : Instruction) : (p.declared i).inst ⟨p.instructions.size⟩ = i :=
  p.nextBound.inst_made i

theorem mem_declared (p : Program) (i : Instruction) :
    ⟨p.instructions.size⟩ ∈ (p.declared i).module.typesValues :=
  List.mem_append_right _ (List.mem_singleton_self _)

theorem grows_declared {p : Program} (free : p.module.idBound < maxIdBound) (i : Instruction) :
    p.Grows (p.declared i) :=
  ((grows_nextBound free).trans (grows_made _ i)).trans (grows_appended _ _ rfl)

theorem Linked.declared (h : p.Linked pending) {i : Instruction} (result : i.resultId = p.module.idBound)
    (uses : ∀ v ∈ i.usedIds, p.Defines v) (free : p.module.idBound < maxIdBound) :
    (p.declared i).Linked pending := by
  have made := h.nextBound.made i
  have inst : (p.nextBound.made i).inst ⟨p.instructions.size⟩ = i := p.nextBound.inst_made i
  have grown := (grows_nextBound free).trans (grows_made p.nextBound i)
  have own : i.ownIds = [p.module.idBound] := by
    have nonzero : p.module.idBound ≠ 0 := Int.ne_of_gt h.positive
    simp [Instruction.ownIds, Instruction.hasResult, nonzero, result]
  -- The id that was pending since it was taken is the result of the new declaration.
  refine Linked.appended ?_ .typesValues ?_ ?_
  · rw [inst, own]
    exact made
  · exact Nat.lt_of_lt_of_eq (Nat.lt_succ_self _) (p.nextBound.size_made i).symm
  · rw [inst]
    exact fun v used => h.defines_of_grows grown rfl (uses v used)

/-! ### Instructions and blocks that are listed once -/

/-- An instruction with a result does not stand in two parts of the layout. -/
theorem Linked.apart {front back : List InstRef} {r : InstRef} (h : p.Linked pending)
    (split : p.allInsts = front ++ back) (result : (p.inst r).resultId ≠ 0) (first : r ∈ front) : r ∉ back := by
  intro second
  have distinct := (List.nodup_append.mp h.distinct).1
  unfold resultIds at distinct
  rw [split, idsOf_append] at distinct
  have own {refs : List InstRef} (member : r ∈ refs) : (p.inst r).resultId ∈ p.idsOf refs :=
    mem_idsOf.mpr ⟨r, member, rfl, result⟩
  exact (List.nodup_append.mp distinct).2.2 _ (own first) _ (own second) rfl

theorem Linked.not_entryPoint {r : InstRef} (h : p.Linked pending) (member : r ∈ p.module.typesValues)
    (result : (p.inst r).resultId ≠ 0) : r ∉ p.module.entryPoints := by
  intro entry
  let front := p.module.capabilities ++ p.module.extensions ++ p.module.extInstImports ++
    p.module.memoryModel.toList ++ p.module.entryPoints
  let back := p.module.executionModes ++ p.module.debugs1 ++ p.module.debugs2 ++ p.module.debugs3 ++
    p.module.annotations ++ p.module.typesValues ++ p.module.functions.flatMap p.functionInsts
  have split : p.allInsts = front ++ back := by
    simp only [allInsts, Module.globals, front, back, List.append_assoc]
  refine h.apart split result ?_ ?_
  · exact List.mem_append_right _ entry
  · exact List.mem_append_left _ (List.mem_append_right _ member)

/-- A block with a label id is listed at one place only. -/
theorem listed_once {b : BlockRef} (distinct : p.resultIds.Nodup) (member : b ∈ p.listedBlocks)
    (labeled : p.blockId b ≠ 0) :
    ∃ front back, p.listedBlocks = front ++ b :: back ∧ b ∉ front ∧ b ∉ back := by
  obtain ⟨front, back, split⟩ := List.append_of_mem member
  have distinct' := (p.idsOf_perm p.allInsts_perm).nodup_iff.mp distinct
  rw [idsOf_append, split, List.flatMap_append, List.flatMap_cons, idsOf_append, idsOf_append] at distinct'
  have own : p.blockId b ∈ p.idsOf (p.blockInsts b) :=
    mem_idsOf.mpr ⟨_, List.mem_cons_self .., rfl, labeled⟩
  have again {blocks : List BlockRef} (member : b ∈ blocks) :
      p.blockId b ∈ p.idsOf (blocks.flatMap p.blockInsts) :=
    mem_idsOf.mpr ⟨_, List.mem_flatMap.mpr ⟨b, member, List.mem_cons_self ..⟩, rfl, labeled⟩
  have inner := (List.nodup_append.mp distinct').2.1
  refine ⟨front, back, split, fun first => ?_, fun second => ?_⟩
  · exact (List.nodup_append.mp inner).2.2 _ (again first) _ (List.mem_append_left _ own) rfl
  · exact (List.nodup_append.mp (List.nodup_append.mp inner).2.1).2.2 _ own _ (again second) rfl

/-- A block that was never made is the default one. -/
theorem index_lt_of_block {b : BlockRef} (written : p.block b ≠ default) : b.index < p.blocks.size := by
  by_contra outside
  refine written ?_
  unfold Program.block Arena.get
  rw [Array.getElem?_eq_none (Nat.le_of_not_lt outside)]
  rfl

theorem index_lt_of_owner {b : BlockRef} {f : FuncRef} (owner : (p.block b).function = some f) :
    b.index < p.blocks.size := by
  refine index_lt_of_block fun default => ?_
  rw [default] at owner
  cases owner

theorem index_lt_of_body {b : BlockRef} (some : p.body b ≠ []) : b.index < p.blocks.size := by
  refine index_lt_of_block fun default => some ?_
  rw [body, default]
  rfl

section Insertion
variable {b : BlockRef} {gap : Nat} {refs : List InstRef} (old : b.index < p.blocks.size)
  (member : b ∈ p.listedBlocks) (labeled : p.blockId b ≠ 0)
include old member labeled

theorem allInsts_inserted (distinct : p.resultIds.Nodup) : (p.inserted b gap refs).allInsts ~ refs ++ p.allInsts := by
  obtain ⟨front, back, listed, once⟩ := listed_once distinct member labeled
  exact allInsts_inserted_perm old listed once

theorem defines_inserted (distinct : p.resultIds.Nodup) {v : Value} (known : p.Defines v) :
    (p.inserted b gap refs).Defines v := by
  obtain ⟨id, among, rfl⟩ := known
  obtain ⟨r, inside, rfl, result⟩ := mem_resultIds.mp among
  have inside' : r ∈ (p.inserted b gap refs).allInsts :=
    (allInsts_inserted old member labeled distinct).mem_iff.mpr (List.mem_append_right _ inside)
  have here : (p.inserted b gap refs).inst r = p.inst r := inst_inserted r
  rw [← here] at result ⊢
  exact defines_of_mem inside' result

theorem Linked.inserted (h : p.Linked (p.idsOf refs ++ pending)) (held : ∀ r ∈ refs, p.Holds r)
    (uses : ∀ r ∈ refs, ∀ v ∈ (p.inst r).usedIds, p.Defines v ∨ ∃ id ∈ p.idsOf refs, v = .int id) :
    (p.inserted b gap refs).Linked pending := by
  have insts : (p.inserted b gap refs).allInsts ~ refs ++ p.allInsts :=
    allInsts_inserted old member labeled (List.nodup_append.mp h.distinct).1
  refine Linked.listed refs h insts (fun r => inst_inserted r) size_inserted ?_ held uses
  rw [module_inserted]

end Insertion

end BlockTally.Program
