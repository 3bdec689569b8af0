import BlockTally.Program.Validity
import BlockTally.Proofs.Checks

/-! The rules of form, and that the checks decide them.

The rules are stated without an order of checks: over all instructions that a module lists, over its
entry points, and over the blocks of its functions.
-/

set_option autoImplicit false

namespace BlockTally

def Instruction.ownIds (i : Instruction) : List Id :=
  if i.hasResult then [i.resultId] else []

theorem Instruction.mem_ownIds {i : Instruction} {id : Id} :
    id ∈ i.ownIds ↔ i.resultId = id ∧ id ≠ 0 := by
  by_cases none : i.resultId = 0
  · simp [ownIds, hasResult, none]
    rintro rfl
    simp
  · simp only [ownIds, hasResult, bne_iff_ne, ne_eq, none, not_false_eq_true, if_true, List.mem_singleton]
    constructor
    · rintro rfl
      exact ⟨rfl, none⟩
    · rintro ⟨rfl, -⟩
      rfl

namespace Program

def idsOf (p : Program) (refs : List InstRef) : List Id :=
  refs.flatMap fun r => (p.inst r).ownIds

def resultIds (p : Program) : List Id :=
  p.idsOf p.allInsts

def Defines (p : Program) (v : Value) : Prop :=
  ∃ id ∈ p.resultIds, v = .int id

/-- How many instructions at the start of a block may be variables. -/
def variableRoom (p : Program) (f : FuncRef) (b : BlockRef) : Nat :=
  if p.entryBlock? f = some b then p.variablesEnd b else 0

structure WellFormedBlock (p : Program) (f : FuncRef) (b : BlockRef) : Prop where
  owner : (p.block b).function = some f
  ends : ∃ init last, p.body b = init ++ [last] ∧ (p.inst last).isTerminator = true ∧
    ∀ r ∈ init, (p.inst r).isTerminator = false
  placed : ∀ r ∈ p.body b, p.blockOf? r = some b
  unlabeled : ∀ r ∈ p.body b, (p.inst r).opcode ≠ .label
  varsLead : ∀ r ∈ (p.body b).drop (p.variableRoom f b), (p.inst r).opcode ≠ .var

structure WellFormed (p : Program) : Prop where
  distinct : p.resultIds.Nodup
  bounded : ∀ id ∈ p.resultIds, 0 < id ∧ id < p.module.idBound
  defined : ∀ r ∈ p.allInsts, ∀ v ∈ (p.inst r).usedIds, p.Defines v
  entryPoints : ∀ r ∈ p.module.entryPoints, ∃ id, (p.inst r).value 1 = .ok id ∧
    ∃ f ∈ p.module.functions, Value.int (p.functionId f) = id
  functions : ∀ f ∈ p.module.functions, (p.function f).blocks ≠ [] ∧
    ∀ b ∈ (p.function f).blocks, p.WellFormedBlock f b

/-! ### The checks one by one -/

theorem idsOf_cons (p : Program) (r : InstRef) (refs : List InstRef) :
    p.idsOf (r :: refs) = (p.inst r).ownIds ++ p.idsOf refs :=
  List.flatMap_cons

theorem mem_idsOf {p : Program} {refs : List InstRef} {id : Id} :
    id ∈ p.idsOf refs ↔ ∃ r ∈ refs, (p.inst r).resultId = id ∧ id ≠ 0 := by
  simp only [idsOf, List.mem_flatMap, Instruction.mem_ownIds]

theorem checkDefinition_ok_iff {p : Program} {known known' : List Value} {r : InstRef} :
    p.checkDefinition known r = .ok known' ↔
      (∀ id ∈ (p.inst r).ownIds, Value.int id ∉ known ∧ 0 < id ∧ id < p.module.idBound) ∧
        known' = (p.inst r).ownIds.map Value.int ++ known := by
  by_cases none : (p.inst r).hasResult = true
  · by_cases twice : Value.int (p.inst r).resultId ∈ known
    · simp [checkDefinition, Instruction.ownIds, none, twice]
    · by_cases bounded : 0 < (p.inst r).resultId ∧ (p.inst r).resultId < p.module.idBound
      · simp [checkDefinition, Instruction.ownIds, none, twice, bounded, eq_comm]
      · simp [checkDefinition, Instruction.ownIds, none, twice, bounded]
  · simp [checkDefinition, Instruction.ownIds, none, eq_comm]

/-- Definitions are checked against those found so far. -/
theorem foldlM_checkDefinition_ok_iff {p : Program} {refs : List InstRef} {known known' : List Value} :
    refs.foldlM p.checkDefinition known = .ok known' ↔
      (p.idsOf refs).Nodup ∧ (∀ id ∈ p.idsOf refs, Value.int id ∉ known) ∧
        (∀ id ∈ p.idsOf refs, 0 < id ∧ id < p.module.idBound) ∧
        known' = (p.idsOf refs).reverse.map Value.int ++ known := by
  induction refs generalizing known with
  | nil => simp [idsOf, pure, Except.pure, eq_comm]
  | cons r rest ih =>
    rw [List.foldlM_cons, except_bind_ok_iff]
    simp only [checkDefinition_ok_iff, ih, idsOf_cons]
    by_cases none : (p.inst r).hasResult = true
    · simp only [Instruction.ownIds, none, if_true]
      constructor
      · rintro ⟨_, ⟨own, rfl⟩, distinct, apart, bounded, rfl⟩
        simp_all
        grind
      · rintro ⟨distinct, apart, bounded, rfl⟩
        refine ⟨_, ⟨?_, rfl⟩, ?_⟩ <;> simp_all
        grind
    · simp [Instruction.ownIds, none]

theorem definitions_ok_iff {p : Program} {known : List Value} :
    p.definitions = .ok known ↔ p.resultIds.Nodup ∧ (∀ id ∈ p.resultIds, 0 < id ∧ id < p.module.idBound) ∧
      known = p.resultIds.reverse.map Value.int := by
  simp [definitions, foldlM_checkDefinition_ok_iff, resultIds]

theorem checkUses_ok_iff {p : Program} {r : InstRef} :
    p.checkUses (p.resultIds.reverse.map Value.int) r = .ok () ↔
      ∀ v ∈ (p.inst r).usedIds, p.Defines v := by
  simp only [checkUses, except_forM_ok_iff]
  refine forall_congr' fun v => forall_congr' fun _ => ?_
  have same : v ∈ p.resultIds.reverse.map Value.int ↔ p.Defines v := by simp [Defines, eq_comm]
  rw [← same]
  split
  next defined => simp only [defined]
  next missing => simp only [missing, reduceCtorEq]

theorem checkEntryPoint_ok_iff {p : Program} {r : InstRef} :
    p.checkEntryPoint r = .ok () ↔ ∃ id, (p.inst r).value 1 = .ok id ∧
      ∃ f ∈ p.module.functions, Value.int (p.functionId f) = id := by
  simp only [checkEntryPoint, except_bind_ok_iff]
  refine exists_congr fun id => and_congr_right fun _ => ?_
  cases found : p.functionNamed? id with
  | none =>
    simp only [functionNamed?, List.find?_eq_none, decide_eq_true_eq] at found
    simpa using found
  | some f =>
    have member := List.mem_of_find?_eq_some found
    have named := List.find?_some found
    simp only [Option.isNone_some, Bool.false_eq_true, if_false]
    exact ⟨fun _ => ⟨f, member, of_decide_eq_true named⟩, fun _ => rfl⟩

theorem checkTermination_ok_iff {p : Program} {b : BlockRef} :
    p.checkTermination b = .ok () ↔ ∃ init last, p.body b = init ++ [last] ∧
      (p.inst last).isTerminator = true ∧ ∀ r ∈ init, (p.inst r).isTerminator = false := by
  -- The last instruction is split off, since the check looks at it and at those before it.
  rcases List.eq_nil_or_concat (p.body b) with empty | ⟨init, last, body⟩
  · simp [checkTermination, empty]
  · have only : ∀ {init' last'}, init ++ [last] = init' ++ [last'] ↔ init = init' ∧ last = last' := by simp
    have early : ((init ++ [last]).dropLast.any fun r => (p.inst r).isTerminator) = true ↔
        ∃ r ∈ init, (p.inst r).isTerminator = true := by simp
    have closed : p.isClosed b = (p.inst last).isTerminator := by simp [isClosed, body]
    rw [List.concat_eq_append] at body
    simp only [checkTermination, closed, body, early, only]
    by_cases ends : (p.inst last).isTerminator = true
    · rw [if_neg (by simp), if_neg (by simp [ends])]
      constructor
      · intro passed
        split at passed
        · contradiction
        next none => exact ⟨init, last, ⟨rfl, rfl⟩, ends, fun r member =>
            Bool.eq_false_iff.mpr fun terminates => none ⟨r, member, terminates⟩⟩
      · rintro ⟨_, _, ⟨rfl, rfl⟩, -, none⟩
        rw [if_neg]
        rintro ⟨r, member, terminates⟩
        exact absurd terminates (by simp [none r member])
    · rw [if_neg (by simp), if_pos (by simp [ends])]
      constructor
      · exact nofun
      · rintro ⟨_, _, ⟨rfl, rfl⟩, terminates, -⟩
        exact absurd terminates ends

theorem checkBody_false_ok_iff {p : Program} {b : BlockRef} {refs : List InstRef} :
    p.checkBody b false refs = .ok () ↔ ∀ r ∈ refs, p.blockOf? r = some b ∧
      (p.inst r).opcode ≠ .label ∧ (p.inst r).opcode ≠ .var := by
  induction refs with
  | nil => simp [checkBody]
  | cons r rest ih =>
    rw [checkBody]
    by_cases placed : p.blockOf? r = some b <;> by_cases label : (p.inst r).opcode = .label <;>
      by_cases var : (p.inst r).opcode = .var <;> simp_all

theorem checkBody_true_ok_iff {p : Program} {b : BlockRef} {refs : List InstRef} :
    p.checkBody b true refs = .ok () ↔ (∀ r ∈ refs, p.blockOf? r = some b ∧ (p.inst r).opcode ≠ .label) ∧
      ∀ r ∈ refs.drop (p.leading .var refs), (p.inst r).opcode ≠ .var := by
  induction refs with
  | nil => simp [checkBody]
  | cons r rest ih =>
    rw [checkBody]
    by_cases placed : p.blockOf? r = some b
    · by_cases label : (p.inst r).opcode = .label
      · simp [placed, label]
      · by_cases var : (p.inst r).opcode = .var
        · simp_all [leading]
        · -- The run of variables ends here, so the rest may not have any.
          have none : p.leading .var (r :: rest) = 0 := by simp [leading, var]
          rw [if_neg (by simp [placed]), if_neg label, if_neg var, checkBody_false_ok_iff, none]
          constructor
          · intro passed
            simp only [List.drop_zero, List.mem_cons, forall_eq_or_imp]
            exact ⟨⟨⟨placed, label⟩, fun s member => ⟨(passed s member).1, (passed s member).2.1⟩⟩, var,
              fun s member => (passed s member).2.2⟩
          · intro passed s member
            have here : s ∈ r :: rest := List.mem_cons_of_mem _ member
            exact ⟨(passed.1 s here).1, (passed.1 s here).2, passed.2 s here⟩
    · simp [placed]

/-- Variables may lead a body only where variables are allowed. -/
theorem checkBody_ok_iff {p : Program} {f : FuncRef} {b : BlockRef} :
    p.checkBody b (p.entryBlock? f = some b) (p.body b) = .ok () ↔
      (∀ r ∈ p.body b, p.blockOf? r = some b ∧ (p.inst r).opcode ≠ .label) ∧
        ∀ r ∈ (p.body b).drop (p.variableRoom f b), (p.inst r).opcode ≠ .var := by
  by_cases entry : p.entryBlock? f = some b
  · simp only [entry, decide_true, checkBody_true_ok_iff, variableRoom, if_true, variablesEnd]
  · simp only [entry, decide_false, checkBody_false_ok_iff, variableRoom, if_false, List.drop_zero]
    constructor
    · intro passed
      exact ⟨fun r member => ⟨(passed r member).1, (passed r member).2.1⟩, fun r member => (passed r member).2.2⟩
    · intro passed r member
      exact ⟨(passed.1 r member).1, (passed.1 r member).2, passed.2 r member⟩

theorem checkBlock_ok_iff {p : Program} {f : FuncRef} {b : BlockRef} :
    p.checkBlock f b = .ok () ↔ p.WellFormedBlock f b := by
  unfold checkBlock
  by_cases owner : (p.block b).function = some f
  · rw [if_neg (by simp [owner])]
    rw [except_then_ok_iff, checkTermination_ok_iff, checkBody_ok_iff]
    constructor
    · rintro ⟨ends, inner, varsLead⟩
      exact ⟨owner, ends, fun r member => (inner r member).1, fun r member => (inner r member).2, varsLead⟩
    · intro formed
      exact ⟨formed.ends, fun r member => ⟨formed.placed r member, formed.unlabeled r member⟩,
        formed.varsLead⟩
  · rw [if_pos owner]
    exact ⟨nofun, fun formed => absurd formed.owner owner⟩

theorem checkFunction_ok_iff {p : Program} {f : FuncRef} :
    p.checkFunction f = .ok () ↔
      (p.function f).blocks ≠ [] ∧ ∀ b ∈ (p.function f).blocks, p.WellFormedBlock f b := by
  unfold checkFunction
  by_cases empty : (p.function f).blocks = []
  · simp only [empty, List.isEmpty_nil, if_true]
    exact ⟨nofun, fun formed => absurd rfl formed.1⟩
  · rw [if_neg (by simp [empty])]
    simp only [except_forM_ok_iff, checkBlock_ok_iff]
    exact ⟨fun formed => ⟨empty, formed⟩, fun formed => formed.2⟩

/-- A module passes all checks just if it keeps all rules of form. -/
theorem validate_ok_iff {p : Program} : p.validate = .ok () ↔ p.WellFormed := by
  rw [validate, except_bind_ok_iff]
  simp only [except_then_ok_iff, except_forM_ok_iff, checkEntryPoint_ok_iff, checkFunction_ok_iff,
    definitions_ok_iff]
  constructor
  · rintro ⟨_, ⟨distinct, bounded, rfl⟩, uses, entryPoints, functions⟩
    exact ⟨distinct, bounded, fun r member => checkUses_ok_iff.mp (uses r member), entryPoints, functions⟩
  · intro formed
    exact ⟨_, ⟨formed.distinct, formed.bounded, rfl⟩, fun r member =>
      checkUses_ok_iff.mpr (formed.defined r member), formed.entryPoints, formed.functions⟩

end Program

end BlockTally
