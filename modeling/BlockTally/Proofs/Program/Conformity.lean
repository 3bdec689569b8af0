import BlockTally.Proofs.Program.WellFormed
import Mathlib.Data.List.Nodup

/-! The rules of form by position.

Here the rules speak of single places only: of an instruction at a position of the layout, and of an instruction at a
position of a block. No rule mentions the run of variables, the part of a body or the list of ids that a check goes
through. The checks decide these rules.
-/

set_option autoImplicit false

namespace BlockTally.Program

structure ConformingBlock (p : Program) (f : FuncRef) (b : BlockRef) : Prop where
  owner : (p.block b).function = some f
  nonempty : p.body b ≠ []
  terminator : ∀ (k : Nat) r, (p.body b)[k]? = some r →
    ((p.inst r).isTerminator = true ↔ k + 1 = (p.body b).length)
  unlabeled : ∀ r ∈ p.body b, (p.inst r).opcode ≠ .label
  placed : ∀ r ∈ p.body b, p.blockOf? r = some b
  varsFirst : ∀ (k : Nat) r, (p.body b)[k]? = some r → (p.inst r).opcode = .var →
    p.entryBlock? f = some b ∧ ∀ (j : Nat) s, j < k → (p.body b)[j]? = some s → (p.inst s).opcode = .var

structure Conforming (p : Program) : Prop where
  distinct : ∀ (j k : Nat) r s, p.allInsts[j]? = some r → p.allInsts[k]? = some s → (p.inst r).resultId ≠ 0 →
    (p.inst r).resultId = (p.inst s).resultId → j = k
  bounded : ∀ r ∈ p.allInsts, (p.inst r).resultId ≠ 0 →
    0 < (p.inst r).resultId ∧ (p.inst r).resultId < p.module.idBound
  defined : ∀ r ∈ p.allInsts, ∀ v ∈ (p.inst r).usedIds,
    ∃ s ∈ p.allInsts, (p.inst s).resultId ≠ 0 ∧ v = .int (p.inst s).resultId
  entryPoints : ∀ r ∈ p.module.entryPoints, ∃ first second rest, (p.inst r).operands = first :: second :: rest ∧
    ∃ f ∈ p.module.functions, second.value = .int (p.functionId f)
  blocks : ∀ f ∈ p.module.functions, (p.function f).blocks ≠ []
  formed : ∀ f ∈ p.module.functions, ∀ b ∈ (p.function f).blocks, p.ConformingBlock f b

/-! ### Result ids -/

/-- Result ids are distinct if no two positions have the same. -/
theorem nodup_idsOf_iff {p : Program} {refs : List InstRef} : (p.idsOf refs).Nodup ↔
    ∀ (j k : Nat) r s, refs[j]? = some r → refs[k]? = some s → (p.inst r).resultId ≠ 0 →
      (p.inst r).resultId = (p.inst s).resultId → j = k := by
  have single (r : InstRef) : (p.inst r).ownIds.Nodup := by
    unfold Instruction.ownIds
    split
    · exact List.nodup_singleton _
    · exact List.nodup_nil
  unfold idsOf
  rw [List.nodup_flatMap, and_iff_right fun r _ => single r, List.pairwise_iff_getElem]
  constructor
  · intro apart j k r s first second result same
    obtain ⟨inside, rfl⟩ := List.getElem?_eq_some_iff.mp first
    obtain ⟨inside', rfl⟩ := List.getElem?_eq_some_iff.mp second
    have own := Instruction.mem_ownIds.mpr ⟨rfl, result⟩
    have other := Instruction.mem_ownIds.mpr ⟨same.symm, result⟩
    -- The lists of own ids at two different positions are disjoint, and these two share an id.
    rcases Nat.lt_trichotomy j k with before | equal | after
    · exact absurd other (apart j k inside inside' before own)
    · exact equal
    · exact absurd own (apart k j inside' inside after other)
  · intro unique j k inside inside' before id first second
    obtain ⟨own, result⟩ := Instruction.mem_ownIds.mp first
    obtain ⟨other, -⟩ := Instruction.mem_ownIds.mp second
    have same := unique j k _ _ (List.getElem?_eq_getElem inside) (List.getElem?_eq_getElem inside')
      (own ▸ result) (own.trans other.symm)
    exact Nat.ne_of_lt before same

theorem defines_iff {p : Program} {v : Value} :
    p.Defines v ↔ ∃ s ∈ p.allInsts, (p.inst s).resultId ≠ 0 ∧ v = .int (p.inst s).resultId := by
  unfold Defines resultIds
  constructor
  · rintro ⟨id, among, rfl⟩
    obtain ⟨s, member, rfl, result⟩ := mem_idsOf.mp among
    exact ⟨s, member, result, rfl⟩
  · rintro ⟨s, member, result, rfl⟩
    exact ⟨_, mem_idsOf.mpr ⟨s, member, rfl, result⟩, rfl⟩

/-! ### Entry points -/

theorem value_one_iff {i : Instruction} {id : Value} :
    i.value 1 = .ok id ↔ ∃ first second rest, i.operands = first :: second :: rest ∧ second.value = id := by
  unfold Instruction.value
  rcases i.operands with _ | ⟨first, _ | ⟨second, rest⟩⟩ <;> simp

/-! ### Blocks -/

/-- The last instruction is the only terminator, said of the list and of its positions. -/
theorem ends_iff {p : Program} {refs : List InstRef} :
    (∃ init last, refs = init ++ [last] ∧ (p.inst last).isTerminator = true ∧
      ∀ r ∈ init, (p.inst r).isTerminator = false) ↔
    refs ≠ [] ∧ ∀ (k : Nat) r, refs[k]? = some r → ((p.inst r).isTerminator = true ↔ k + 1 = refs.length) := by
  constructor
  · rintro ⟨init, last, rfl, ends, none⟩
    refine ⟨List.append_ne_nil_of_right_ne_nil _ (List.cons_ne_nil _ _), fun k r found => ?_⟩
    rw [List.length_append, List.length_singleton, Nat.add_right_cancel_iff]
    rcases Nat.lt_or_ge k init.length with before | behind
    · rw [List.getElem?_append_left before] at found
      simp [none r (List.mem_of_getElem? found), Nat.ne_of_lt before]
    · rw [List.getElem?_append_right behind, List.getElem?_singleton] at found
      split at found
      next here =>
        obtain rfl := Option.some.inj found
        simp only [ends, true_iff]
        omega
      next => cases found
  · rintro ⟨nonempty, only⟩
    -- The last position has a terminator, and the positions before it have none.
    obtain ⟨init, last, rfl⟩ := List.eq_nil_or_concat refs |>.resolve_left nonempty
    rw [List.concat_eq_append] at only ⊢
    refine ⟨init, last, rfl, ?_, fun r member => ?_⟩
    · exact (only init.length last (by simp)).mpr (by simp)
    · obtain ⟨k, found⟩ := List.mem_iff_getElem?.mp member
      obtain ⟨inside, -⟩ := List.getElem?_eq_some_iff.mp found
      have early := only k r (by rw [List.getElem?_append_left inside, found])
      rw [List.length_append, List.length_singleton, Nat.add_right_cancel_iff] at early
      exact Bool.eq_false_iff.mpr fun ends => Nat.ne_of_lt inside (early.mp ends)

/-- Variables only lead a list just if there are only variables before each of them. -/
theorem leading_iff {p : Program} {op : Opcode} {refs : List InstRef} :
    (∀ r ∈ refs.drop (p.leading op refs), (p.inst r).opcode ≠ op) ↔
    ∀ (k : Nat) r, refs[k]? = some r → (p.inst r).opcode = op →
      ∀ (j : Nat) s, j < k → refs[j]? = some s → (p.inst s).opcode = op := by
  induction refs with
  | nil => simp
  | cons first rest ih =>
    unfold leading at ih ⊢
    by_cases leads : (p.inst first).opcode = op
    -- The first leads, so the rest has to keep the rule, with all positions one less.
    · rw [List.takeWhile_cons_of_pos (by simpa using leads), List.length_cons, List.drop_succ_cons, ih]
      constructor
      · intro earlier k r found same j s before found'
        cases j with
        | zero =>
          obtain rfl : first = s := by simpa using found'
          exact leads
        | succ j =>
          obtain ⟨k, rfl⟩ : ∃ n, k = n + 1 := ⟨k - 1, by omega⟩
          rw [List.getElem?_cons_succ] at found found'
          exact earlier k r found same j s (by omega) found'
      · intro earlier k r found same j s before found'
        exact earlier (k + 1) r (by simpa using found) same (j + 1) s (by omega) (by simpa using found')
    · -- Nothing leads, so nothing may follow either.
      rw [List.takeWhile_cons_of_neg (by simpa using leads), List.length_nil, List.drop_zero]
      constructor
      · intro none k r found same
        exact absurd same (none r (List.mem_of_getElem? found))
      · intro earlier r member same
        obtain ⟨k, found⟩ := List.mem_iff_getElem?.mp member
        cases k with
        | zero =>
          obtain rfl : first = r := by simpa using found
          exact leads same
        | succ k => exact leads (earlier (k + 1) r found same 0 first (Nat.succ_pos k) rfl)

theorem varsLead_iff {p : Program} {f : FuncRef} {b : BlockRef} :
    (∀ r ∈ (p.body b).drop (p.variableRoom f b), (p.inst r).opcode ≠ .var) ↔
    ∀ (k : Nat) r, (p.body b)[k]? = some r → (p.inst r).opcode = .var →
      p.entryBlock? f = some b ∧ ∀ (j : Nat) s, j < k → (p.body b)[j]? = some s → (p.inst s).opcode = .var := by
  unfold variableRoom
  split
  next entry =>
    unfold variablesEnd
    simp only [leading_iff, entry, true_and]
  next other =>
    simp only [List.drop_zero, other, false_and, imp_false]
    rw [List.forall_mem_iff_getElem]
    simp only [List.getElem?_eq_some_iff]
    exact ⟨fun none k r ⟨inside, here⟩ => here ▸ none k inside, fun none k inside => none k _ ⟨inside, rfl⟩⟩

theorem conformingBlock_iff {p : Program} {f : FuncRef} {b : BlockRef} :
    p.ConformingBlock f b ↔ p.WellFormedBlock f b := by
  constructor
  · intro h
    exact ⟨h.owner, ends_iff.mpr ⟨h.nonempty, h.terminator⟩, h.placed, h.unlabeled, varsLead_iff.mpr h.varsFirst⟩
  · intro h
    obtain ⟨nonempty, terminator⟩ := ends_iff.mp h.ends
    exact ⟨h.owner, nonempty, terminator, h.unlabeled, h.placed, varsLead_iff.mp h.varsLead⟩

/-- A module passes all checks just if it keeps the rules at every position. -/
theorem validate_ok_iff_conforming {p : Program} : p.validate = .ok () ↔ p.Conforming := by
  have entryPoint (r : InstRef) : (∃ id, (p.inst r).value 1 = .ok id ∧
      ∃ f ∈ p.module.functions, Value.int (p.functionId f) = id) ↔
      ∃ first second rest, (p.inst r).operands = first :: second :: rest ∧
        ∃ f ∈ p.module.functions, second.value = .int (p.functionId f) := by
    simp only [value_one_iff]
    grind
  rw [validate_ok_iff]
  constructor
  · intro h
    refine ⟨nodup_idsOf_iff.mp h.distinct, fun r member result => ?_, fun r member v used => ?_,
      fun r member => (entryPoint r).mp (h.entryPoints r member), fun f listed => (h.functions f listed).1,
      fun f listed b member => conformingBlock_iff.mpr ((h.functions f listed).2 b member)⟩
    · exact h.bounded _ (mem_idsOf.mpr ⟨r, member, rfl, result⟩)
    · exact defines_iff.mp (h.defined r member v used)
  · intro h
    refine ⟨nodup_idsOf_iff.mpr h.distinct, fun id among => ?_, fun r member v used => ?_,
      fun r member => (entryPoint r).mpr (h.entryPoints r member),
      fun f listed => ⟨h.blocks f listed, fun b member => conformingBlock_iff.mp (h.formed f listed b member)⟩⟩
    · obtain ⟨r, member, rfl, result⟩ := mem_idsOf.mp among
      exact h.bounded r member result
    · exact defines_iff.mpr (h.defined r member v used)

end BlockTally.Program
