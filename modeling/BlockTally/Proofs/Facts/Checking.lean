import BlockTally.Proofs.Facts.Uses
import BlockTally.Proofs.Program.WellFormed
import BlockTally.Proofs.Counter.Outcome

/-! The index of uses and the checks of result ids.

The checks go through the instructions with a list of the ids defined so far, and the index is a table that is written
call by call. Both read the same ids at the same places: the checks can be made with the index alone.
-/

set_option autoImplicit false

namespace BlockTally.Program

variable {p : Program} {v : Value}

/-- The checks of a module that are about ids: they are unique and inside the bound, and used ids are defined. -/
def checkIds (p : Program) : Except Error Unit := do
  let defined ← p.definitions
  p.allInsts.forM (p.checkUses defined)

/-- A module is valid just if these checks and the others pass. -/
theorem validate_ok_iff_checkIds : p.validate = .ok () ↔ p.checkIds = .ok () ∧
    p.module.entryPoints.forM p.checkEntryPoint = .ok () ∧ p.module.functions.forM p.checkFunction = .ok () := by
  rw [validate, except_bind_ok_iff, checkIds, except_bind_ok_iff]
  simp only [except_then_ok_iff]
  constructor
  · rintro ⟨defined, definitions, uses, others⟩
    exact ⟨⟨defined, definitions, uses⟩, others⟩
  · rintro ⟨⟨defined, definitions, uses⟩, others⟩
    exact ⟨defined, definitions, uses, others⟩

theorem checkIds_ok_iff : p.checkIds = .ok () ↔ p.resultIds.Nodup ∧
    (∀ id ∈ p.resultIds, 0 < id ∧ id < p.module.idBound) ∧
      ∀ v ∈ p.allInsts.flatMap fun r => (p.inst r).usedIds, p.Defines v := by
  simp only [checkIds, except_bind_ok_iff, except_forM_ok_iff, definitions_ok_iff]
  constructor
  · rintro ⟨_, ⟨distinct, bounded, rfl⟩, uses⟩
    refine ⟨distinct, bounded, fun v member => ?_⟩
    obtain ⟨r, listed, used⟩ := List.mem_flatMap.mp member
    exact checkUses_ok_iff.mp (uses r listed) v used
  · rintro ⟨distinct, bounded, defined⟩
    exact ⟨_, ⟨distinct, bounded, rfl⟩, fun r listed => checkUses_ok_iff.mpr fun v used =>
      defined v (List.mem_flatMap.mpr ⟨r, listed, used⟩)⟩

/-- An id is defined if there is a last instruction that defines it. -/
theorem lastDefinition_ne_none_iff : lastDefinition p.inst p.allInsts v ≠ none ↔ p.Defines v := by
  rw [lastDefinition, ne_eq, List.getLast?_eq_none_iff]
  constructor
  · intro found
    obtain ⟨r, member⟩ := List.exists_mem_of_ne_nil _ found
    obtain ⟨listed, defines⟩ := List.mem_filter.mp member
    obtain ⟨result, rfl⟩ : (p.inst r).hasResult = true ∧ Value.int (p.inst r).resultId = v := by
      simpa [Instruction.defines] using defines
    exact ⟨_, mem_idsOf.mpr ⟨r, listed, rfl, by simpa [Instruction.hasResult] using result⟩, rfl⟩
  · rintro ⟨id, member, rfl⟩
    obtain ⟨r, listed, rfl, nonzero⟩ := mem_idsOf.mp member
    refine List.ne_nil_of_mem (a := r) (List.mem_filter.mpr ⟨listed, ?_⟩)
    simpa [Instruction.defines, Instruction.hasResult] using nonzero

/-- The index of a module whose instructions are all different counts the used ids as the checks read them, and the
checks of ids are those of an index: every used id has a definition in it. -/
theorem checkIds_ok_iff_index (distinct : p.allInsts.Nodup) :
    (∀ v, ((Uses.ofProgram p).usesOf v).length = (p.allInsts.flatMap fun r => (p.inst r).usedIds).count v) ∧
      (p.checkIds = .ok () ↔ p.resultIds.Nodup ∧ (∀ id ∈ p.resultIds, 0 < id ∧ id < p.module.idBound) ∧
        ∀ v, 0 < ((Uses.ofProgram p).usesOf v).length → (Uses.ofProgram p).definition? v ≠ none) := by
  have indexes := Uses.ofProgram_indexes distinct
  have counts (v : Value) : ((Uses.ofProgram p).usesOf v).length =
      (p.allInsts.flatMap fun r => (p.inst r).usedIds).count v := by
    rw [(indexes.uses v).length_eq, List.length_flatMap, List.count_flatMap]
    simp only [Instruction.length_usesAt]
    rfl
  refine ⟨counts, checkIds_ok_iff.trans (and_congr_right fun _ => and_congr_right fun _ => forall_congr' fun v => ?_)⟩
  rw [counts, List.count_pos_iff, indexes.definition, lastDefinition_ne_none_iff]

theorem checkIds_ok_iff_index_sample : ((Uses.ofProgram (Run.sample 8)).usesOf (.int 2)).length =
      ((Run.sample 8).allInsts.flatMap fun r => ((Run.sample 8).inst r).usedIds).count (.int 2) ∧
    ∀ v, 0 < ((Uses.ofProgram (Run.sample 8)).usesOf v).length →
      (Uses.ofProgram (Run.sample 8)).definition? v ≠ none := by
  have distinct : (Run.sample 8).allInsts.Nodup := by decide +kernel
  have passed : (Run.sample 8).checkIds = .ok () := by decide +kernel
  obtain ⟨counts, checks⟩ := checkIds_ok_iff_index distinct
  exact ⟨counts _, (checks.mp passed).2.2⟩

end BlockTally.Program
