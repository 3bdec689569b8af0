import BlockTally.Proofs.Program.Instrumentation
import Mathlib.Data.List.Perm.Subperm

/-! The allotment of ids.

Ids are handed out by the bound of the module alone, whoever asks for them. An id that was handed out is spare until an
instruction that has it as its result is listed, and it may stay so. What the module defines stays distinct and below
the bound, as long as no function and no block is listed twice.
-/

set_option autoImplicit false

namespace BlockTally

open scoped List

/-- A part that changes where the parts are listed once adds no more to the whole than what is new in it. -/
theorem flatMap_subperm {α β : Type} {f g : α → List β} {parts : List α} {a : α} {new : List β}
    (distinct : parts.Nodup) (here : g a <+~ new ++ f a) (others : ∀ c, c ≠ a → g c = f c) :
    parts.flatMap g <+~ new ++ parts.flatMap f := by
  induction parts with
  | nil => exact List.nil_subperm
  | cons c rest ih =>
    obtain ⟨absent, distinct⟩ := List.nodup_cons.mp distinct
    rw [List.flatMap_cons, List.flatMap_cons]
    by_cases same : c = a
    · subst same
      have later : rest.flatMap g = rest.flatMap f := by
        refine List.flatMap_congr fun d among => others d ?_
        rintro rfl
        exact absent among
      rw [later, ← List.append_assoc]
      exact (List.subperm_append_right _).mpr here
    · rw [others c same]
      exact ((List.subperm_append_left _).mpr (ih distinct)).trans (List.perm_append_comm_assoc ..).subperm

/-- The result id, whether or not it stands for a result, is the only own id that there can be. -/
theorem Instruction.ownIds_sublist (i : Instruction) : i.ownIds <+ [i.resultId] := by
  unfold ownIds
  split
  · exact .refl _
  · exact List.nil_sublist _

theorem Instruction.ownIds_eq_nil {i : Instruction} (noResult : i.resultId = 0) : i.ownIds = [] := by
  simp [ownIds, hasResult, noResult]

namespace Program

variable {p p₁ q o : Program} {ids more new own : List Id} {id : Id}

/-! ### Handing out -/

inductive Hands : Program → List Id → Program → Prop where
  | edit {p q : Program} (same : q.module.idBound = p.module.idBound) : Hands p [] q
  | take {p q : Program} {id : Id} (taken : takeId p = .ok id q) : Hands p [id] q
  | trans {p q o : Program} {ids more : List Id} (first : Hands p ids q) (second : Hands q more o) :
      Hands p (ids ++ more) o

theorem takeId_ok (taken : takeId p = .ok id q) :
    p.module.idBound < maxIdBound ∧ id = p.module.idBound ∧ q = p.nextBound := by
  have spec : Change.After takeId p
      (fun id q => p.module.idBound < maxIdBound ∧ id = p.module.idBound ∧ q = p.nextBound) fun _ _ => True :=
    after_takeId (fun _ => True.intro) fun free => ⟨free, rfl, rfl⟩
  exact spec.of_ok taken

theorem takeId_eq (free : p.module.idBound < maxIdBound) : takeId p = .ok p.module.idBound p.nextBound := by
  have spec : Change.After takeId p (fun id q => id = p.module.idBound ∧ q = p.nextBound) fun _ _ => False :=
    after_takeId (fun full => absurd free (Int.not_lt.mpr full)) fun _ => ⟨rfl, rfl⟩
  unfold Change.After at spec
  split at spec
  next taken => rw [taken, spec.1, spec.2]
  next => exact spec.elim

/-- The bound only grows, and not beyond its limit. -/
theorem Hands.bounds (h : Hands p ids q) : p.module.idBound ≤ q.module.idBound ∧
    (q.module.idBound = p.module.idBound ∨ q.module.idBound ≤ maxIdBound) := by
  induction h with
  | edit same => exact ⟨Int.le_of_eq same.symm, .inl same⟩
  | take taken =>
    obtain ⟨free, rfl, rfl⟩ := takeId_ok taken
    simp only [nextBound]
    omega
  | trans _ _ first second => omega

/-- Ids that are handed out grow from the bound before to the bound after. -/
theorem Hands.increasing (h : Hands p ids q) :
    ids.Pairwise (· < ·) ∧ ∀ id ∈ ids, p.module.idBound ≤ id ∧ id < q.module.idBound := by
  induction h with
  | edit => exact ⟨.nil, nofun⟩
  | take taken =>
    obtain ⟨-, rfl, rfl⟩ := takeId_ok taken
    refine ⟨List.pairwise_singleton .., fun id member => ?_⟩
    obtain rfl := List.mem_singleton.mp member
    exact ⟨Int.le_refl _, Int.lt_succ _⟩
  | trans first second ih ih' =>
    refine ⟨List.pairwise_append.mpr ⟨ih.1, ih'.1, fun id member id' member' => ?_⟩, fun id member => ?_⟩
    · exact Int.lt_of_lt_of_le (ih.2 id member).2 (ih'.2 id' member').1
    · rcases List.mem_append.mp member with early | late
      · exact ⟨(ih.2 id early).1, Int.lt_of_lt_of_le (ih.2 id early).2 second.bounds.1⟩
      · exact ⟨Int.le_trans first.bounds.1 (ih'.2 id late).1, (ih'.2 id late).2⟩

/-! ### What is defined -/

/-- The module lists functions and blocks that there are, each of them once. -/
structure Laid (p : Program) : Prop where
  functions : p.module.functions.Nodup
  blocks : p.listedBlocks.Nodup
  functionsHeld : ∀ f ∈ p.module.functions, f.index < p.functions.size
  blocksHeld : ∀ b ∈ p.listedBlocks, b.index < p.blocks.size

structure Fresh (p : Program) : Prop where
  distinct : p.resultIds.Nodup
  taken : ∀ id ∈ p.resultIds, id < p.module.idBound
  closed : p.Closed
  laid : p.Laid

def Spare (p : Program) (id : Id) : Prop :=
  id ∉ p.resultIds ∧ id < p.module.idBound

theorem Laid.congr (h : p.Laid) (listed : q.module.functions = p.module.functions)
    (functions : q.functions = p.functions) (blocks : q.blocks.size = p.blocks.size) : q.Laid := by
  have same : q.listedBlocks = p.listedBlocks := by
    unfold listedBlocks function
    rw [listed, functions]
  refine ⟨listed ▸ h.functions, same ▸ h.blocks, ?_, ?_⟩
  · rw [listed, functions]
    exact h.functionsHeld
  · rw [same, blocks]
    exact h.blocksHeld

/-- Ids are handed out on the way, and what is defined stays distinct. Other ids than these stay spare. -/
structure Allots (p : Program) (ids : List Id) (q : Program) : Prop where
  hands : p.Hands ids q
  fresh : p.Fresh → q.Fresh
  spare : p.Fresh → ∀ id, p.Spare id → q.Spare id

theorem Allots.refl (p : Program) : p.Allots [] p :=
  ⟨.edit rfl, id, fun _ _ => id⟩

theorem Allots.trans (first : p.Allots ids q) (second : q.Allots more o) : p.Allots (ids ++ more) o where
  hands := first.hands.trans second.hands
  fresh fresh := second.fresh (first.fresh fresh)
  spare fresh id spare := second.spare (first.fresh fresh) id (first.spare fresh id spare)

/-- A change without new results. -/
theorem Allots.edit (first : p.Allots ids q) (second : q.Allots [] o) : p.Allots ids o :=
  List.append_nil ids ▸ first.trans second

theorem Fresh.spare_nextBound (h : p.Fresh) : p.nextBound.Spare p.module.idBound :=
  ⟨fun member => Int.lt_irrefl _ (h.taken _ member), Int.lt_succ _⟩

theorem allots_nextBound (free : p.module.idBound < maxIdBound) : p.Allots [p.module.idBound] p.nextBound where
  hands := .take (takeId_eq free)
  fresh h := ⟨h.distinct, fun id member => Int.lt_trans (h.taken id member) (Int.lt_succ _), h.closed,
    h.laid.congr rfl rfl rfl⟩
  spare _ _ spare := ⟨spare.1, Int.lt_trans spare.2 (Int.lt_succ _)⟩

/-! ### Ids on their way to an instruction -/

structure Owes (p : Program) (ids : List Id) (q : Program) (own : List Id) : Prop where
  allots : p.Allots ids q
  handed : own ⊆ ids
  distinct : own.Nodup
  spare : p.Fresh → ∀ id ∈ own, q.Spare id

theorem owes_none (p : Program) : p.Owes [] p [] :=
  ⟨.refl p, List.nil_subset _, .nil, fun _ => nofun⟩

theorem Owes.part (h : p.Owes ids q own) (part : new <+ own) : p.Owes ids q new :=
  ⟨h.allots, List.Subset.trans part.subset h.handed, h.distinct.sublist part,
    fun fresh id member => h.spare fresh id (part.subset member)⟩

theorem Owes.later (h : p.Owes ids q own) (move : q.Allots more o) : p.Owes (ids ++ more) o own where
  allots := h.allots.trans move
  handed _ member := List.mem_append_left _ (h.handed member)
  distinct := h.distinct
  spare fresh id member := move.spare (h.allots.fresh fresh) id (h.spare fresh id member)

theorem Owes.edit (h : p.Owes ids q own) (move : q.Allots [] o) : p.Owes ids o own :=
  List.append_nil ids ▸ h.later move

theorem Owes.after (h : p₁.Owes ids q own) (before : p.Allots more p₁) : p.Owes (more ++ ids) q own where
  allots := before.trans h.allots
  handed _ member := List.mem_append_right _ (h.handed member)
  distinct := h.distinct
  spare fresh := h.spare (before.fresh fresh)

/-- One more id is taken. -/
theorem Owes.take (h : p.Owes ids q own) (free : q.module.idBound < maxIdBound) :
    p.Owes (ids ++ [q.module.idBound]) q.nextBound (own ++ [q.module.idBound]) := by
  have later := h.later (allots_nextBound free)
  refine ⟨later.allots, fun id member => ?_, ?_, fun fresh id member => ?_⟩
  · exact List.mem_append.mpr ((List.mem_append.mp member).imp_left fun old => h.handed old)
  · refine List.nodup_append.mpr ⟨h.distinct, List.pairwise_singleton .., fun id member other last => ?_⟩
    obtain rfl := List.mem_singleton.mp last
    exact Int.ne_of_lt (h.allots.hands.increasing.2 id (h.handed member)).2
  · rcases List.mem_append.mp member with old | last
    · exact later.spare fresh id old
    · obtain rfl := List.mem_singleton.mp last
      exact (h.allots.fresh fresh).spare_nextBound

/-- The ids are defined once the instructions that they go to are listed. -/
theorem Owes.define (h : p.Owes ids p₁ own) (bound : q.module.idBound = p₁.module.idBound)
    (listed : p₁.Fresh → q.resultIds <+~ own ++ p₁.resultIds ∧ q.Closed ∧ q.Laid) : p.Allots ids q where
  hands := List.append_nil ids ▸ h.allots.hands.trans (.edit bound)
  fresh fresh := by
    have fresh₁ := h.allots.fresh fresh
    obtain ⟨part, closed, laid⟩ := listed fresh₁
    have apart : (own ++ p₁.resultIds).Nodup :=
      List.nodup_append.mpr ⟨h.distinct, fresh₁.distinct, fun id member other again same =>
        (h.spare fresh id member).1 (same ▸ again)⟩
    refine ⟨?_, fun id member => ?_, closed, laid⟩
    · obtain ⟨part, same, among⟩ := part
      exact same.nodup_iff.mp (apart.sublist among)
    · rw [bound]
      rcases List.mem_append.mp (part.subset member) with among | old
      · exact (h.spare fresh id among).2
      · exact fresh₁.taken id old
  spare fresh id unused := by
    obtain ⟨part, -, -⟩ := listed (h.allots.fresh fresh)
    obtain ⟨undefined, below⟩ := h.allots.spare fresh id unused
    refine ⟨fun member => ?_, bound ▸ below⟩
    rcases List.mem_append.mp (part.subset member) with among | old
    -- What is handed out from here on is not below the bound.
    · exact Int.not_lt.mpr (h.allots.hands.increasing.2 id (h.handed among)).1 unused.2
    · exact undefined old

/-- A change after which nothing new is defined. -/
theorem allots_of_part (bound : q.module.idBound = p.module.idBound)
    (listed : p.Fresh → q.resultIds <+~ p.resultIds ∧ q.Closed ∧ q.Laid) : p.Allots [] q :=
  (owes_none p).define bound listed

theorem allots_made (i : Instruction) : p.Allots [] (p.made i) := by
  refine allots_of_part rfl fun h => ⟨List.Perm.subperm (.of_eq ?_), fun r member => ?_, h.laid.congr rfl rfl rfl⟩
  · exact idsOf_congr fun r member => by rw [inst_made_of_lt i (h.closed r member)]
  · exact Nat.lt_of_lt_of_eq (Nat.lt_succ_of_lt (h.closed r member)) (p.size_made i).symm

theorem allots_withOperand (r : InstRef) (operand : Operand) : p.Allots [] (p.withOperand r operand) := by
  refine allots_of_part rfl fun h => ⟨List.Perm.subperm (.of_eq ?_), fun s member => ?_, h.laid.congr rfl rfl rfl⟩
  · refine idsOf_congr fun s _ => ?_
    obtain ⟨more, same⟩ := p.inst_withOperand_extended r s operand
    rw [same]
    rfl
  · exact Nat.lt_of_lt_of_eq (h.closed s member) (p.size_withOperand r operand).symm

/-! ### New instructions in the layout -/

section
variable {refs : List InstRef} {i : Instruction} {b : BlockRef} {gap : Nat}

/-- Instructions that were made are listed. -/
theorem Owes.list (h : p.Owes ids p₁ (p₁.idsOf refs)) (held : ∀ r ∈ refs, p₁.Holds r)
    (bound : q.module.idBound = p₁.module.idBound) (same : ∀ r, q.inst r = p₁.inst r)
    (size : q.instructions.size = p₁.instructions.size)
    (listed : p₁.Laid → q.allInsts <+~ refs ++ p₁.allInsts ∧ q.Laid) : p.Allots ids q := by
  refine h.define bound fun fresh => ?_
  obtain ⟨part, laid⟩ := listed fresh.laid
  refine ⟨?_, fun r member => ?_, laid⟩
  · have ids : q.resultIds = p₁.idsOf q.allInsts := idsOf_congr fun r _ => by rw [same]
    obtain ⟨between, perm, among⟩ := part
    rw [ids, resultIds, ← idsOf_append]
    exact ⟨p₁.idsOf between, p₁.idsOf_perm perm, p₁.idsOf_sublist among⟩
  · unfold Holds
    rw [size]
    rcases List.mem_append.mp (part.subset member) with new | old
    · exact held r new
    · exact fresh.closed r old

/-- An instruction is made for the ids. -/
theorem Owes.made (h : p.Owes ids p₁ i.ownIds) :
    p.Owes ids (p₁.made i) ((p₁.made i).idsOf [⟨p₁.instructions.size⟩]) := by
  have own : (p₁.made i).idsOf [⟨p₁.instructions.size⟩] = i.ownIds := by
    rw [idsOf_cons, inst_made, idsOf]
    exact List.append_nil _
  rw [own]
  exact h.edit (allots_made i)

theorem hold_made (p : Program) (i : Instruction) : ∀ r ∈ [InstRef.mk p.instructions.size], (p.made i).Holds r :=
  List.forall_mem_singleton.mpr (p.holds_made i)

/-- A new instruction goes to the end of a section. -/
theorem Owes.appended (h : p.Owes ids p₁ i.ownIds) (place : Section) :
    p.Allots ids ((p₁.made i).appended place ⟨p₁.instructions.size⟩) := by
  refine h.made.list (p₁.hold_made i) (by cases place <;> rfl) (fun _ => rfl) rfl
    fun laid => ⟨?_, laid.congr ?_ rfl rfl⟩
  · exact (allInsts_appended_perm ..).subperm
  · cases place <;> rfl

/-- Instructions in a gap of a block that is listed once add no more than themselves. -/
theorem allInsts_inserted_subperm (laid : p.Laid) : (p.inserted b gap refs).allInsts <+~ refs ++ p.allInsts := by
  have here : (p.inserted b gap refs).blockInsts b <+~ refs ++ p.blockInsts b := by
    by_cases old : b.index < p.blocks.size
    · exact (blockInsts_inserted_perm old).subperm
    · have same : (p.inserted b gap refs).block b = p.block b := by
        have blocks := (p.placed_spec b refs).1
        simp only [block, inserted, changeBlock, Arena.get_update, blocks, old, and_false, if_false]
      unfold blockInsts body
      rw [same]
      exact (List.sublist_append_right ..).subperm
  have parts := flatMap_subperm laid.blocks here fun c other => blockInsts_inserted_of_ne other
  have whole := (p.inserted b gap refs).allInsts_perm
  rw [frame_inserted, listedBlocks_inserted] at whole
  have last : p.frame ++ (refs ++ p.listedBlocks.flatMap p.blockInsts) ~ refs ++ p.allInsts :=
    (List.perm_append_comm_assoc ..).trans (p.allInsts_perm.symm.append_left _)
  exact whole.subperm.trans (((List.subperm_append_left _).mpr parts).trans last.subperm)

/-- Instructions that were made go into a block. -/
theorem Owes.inserted (h : p.Owes ids p₁ (p₁.idsOf refs)) (held : ∀ r ∈ refs, p₁.Holds r) (b : BlockRef) (gap : Nat) :
    p.Allots ids (p₁.inserted b gap refs) := by
  refine h.list held (by rw [module_inserted]) (fun r => inst_inserted r) size_inserted fun laid => ?_
  refine ⟨allInsts_inserted_subperm laid, laid.congr (by rw [module_inserted]) functions_inserted ?_⟩
  rw [Program.inserted, changeBlock, Arena.size_update, (p₁.placed_spec b refs).1]

end

end Program

end BlockTally
