import BlockTally.Facts.Annotations
import BlockTally.Proofs.Checks
import BlockTally.Proofs.Program.Growth

/-! The annotations of a module, as the instructions that have an id as their target.

The target is the first operand, so an annotation keeps its target when it gets more operands.
-/

set_option autoImplicit false

namespace BlockTally

def Instruction.target? (i : Instruction) : Option Value :=
  if i.annotates then i.operands.head?.map Operand.value else none

theorem Instruction.target?_extended {i : Instruction} {v : Value} (more : List Operand)
    (found : i.target? = some v) : (i.extended more).target? = some v := by
  obtain ⟨opcode, typeId, resultId, operands⟩ := i
  cases operands with
  | nil =>
    unfold target? at found
    split at found <;> cases found
  | cons operand rest => exact found

namespace Program

variable (p : Program) (target : Value)

def notesOn : List InstRef :=
  p.module.annotations.filter fun r => (p.inst r).target? = some target

def noteValues (opcode : Opcode) : List (List Value) :=
  ((p.notesOn target).filter fun r => (p.inst r).opcode = opcode).map fun r => (p.inst r).valuesFrom 1

end Program

namespace Annotations

variable {p q : Program} {a b : Annotations} {r : InstRef} {refs : List InstRef}

theorem analyze_of_target {target : Value} (found : (p.inst r).target? = some target) :
    analyze p a r = .ok ⟨a.byTarget.set target (a.on target ++ [r])⟩ := by
  unfold Instruction.target? at found
  split at found
  next annotates =>
    obtain ⟨operand, first, rfl⟩ := Option.map_eq_some_iff.mp found
    rw [List.head?_eq_getElem?] at first
    simp only [analyze, annotates, Instruction.value, first]
    rfl
  next => cases found

theorem analyze_of_plain (plain : (p.inst r).annotates = false) : analyze p a r = .ok a := by
  simp [analyze, plain]

/-- An instruction without a target is passed over; if it is an annotation, it is not accepted. -/
theorem plain_of_no_target (analyzed : analyze p a r = .ok b) (none : (p.inst r).target? = none) :
    (p.inst r).annotates = false := by
  cases annotates : (p.inst r).annotates with
  | false => rfl
  | true =>
    rw [Instruction.target?, annotates, if_pos rfl, Option.map_eq_none_iff, List.head?_eq_getElem?] at none
    simp only [analyze, annotates, Instruction.value, none] at analyzed
    cases analyzed

theorem on_analyze (analyzed : analyze p a r = .ok b) (target : Value) :
    b.on target = if (p.inst r).target? = some target then a.on target ++ [r] else a.on target := by
  cases found : (p.inst r).target? with
  | none =>
    have same : analyze p a r = .ok a := analyze_of_plain (plain_of_no_target analyzed found)
    obtain rfl := Except.ok.inj (same.symm.trans analyzed)
    rfl
  | some other =>
    obtain rfl := Except.ok.inj ((analyze_of_target found).symm.trans analyzed)
    simp only [on, Table.get?_set, Option.some.injEq]
    split
    next same => simp [same]
    next => rfl

theorem on_foldlM (analyzed : refs.foldlM (analyze p) a = .ok b) (target : Value) :
    b.on target = a.on target ++ refs.filter fun r => (p.inst r).target? = some target := by
  induction refs generalizing a with
  | nil =>
    obtain rfl := Except.ok.inj analyzed
    simp
  | cons r rest ih =>
    rw [List.foldlM_cons] at analyzed
    obtain ⟨c, first, others⟩ := except_bind_ok_iff.mp analyzed
    rw [ih others, on_analyze first]
    by_cases here : (p.inst r).target? = some target <;> simp [here]

/-- The annotations of an id are those of the module that have it as their target. -/
theorem on_ofProgram (read : ofProgram p = .ok a) (target : Value) :
    a.on target = p.module.annotations.filter fun r => (p.inst r).target? = some target :=
  on_foldlM read target

theorem mem_on (read : ofProgram p = .ok a) {target : Value} :
    r ∈ a.on target ↔ r ∈ p.module.annotations ∧ (p.inst r).target? = some target := by
  rw [on_ofProgram read, List.mem_filter, decide_eq_true_eq]

def valuesOn (p : Program) (a : Annotations) (target : Value) (opcode : Opcode) : List (List Value) :=
  ((a.on target).filter fun r => (p.inst r).opcode = opcode).map fun r => (p.inst r).valuesFrom 1

theorem valuesOn_ofProgram (read : ofProgram p = .ok a) (target : Value) (opcode : Opcode) :
    valuesOn p a target opcode = p.noteValues target opcode := by
  rw [valuesOn, on_ofProgram read]
  rfl

/-- Values that are new for an id are not found there. -/
theorem find?_of_new {target : Value} {opcode : Opcode} {values : List Value}
    (new : values ∉ valuesOn p a target opcode) : a.find? p target opcode values = none := by
  refine List.find?_eq_none.mpr fun r member found => new ?_
  obtain ⟨same, same'⟩ := of_decide_eq_true found
  rw [← same']
  exact List.mem_map.mpr ⟨r, List.mem_filter.mpr ⟨member, decide_eq_true same⟩, rfl⟩

theorem ofType_eq (read : ofProgram p = .ok a) (target : Value) :
    ofType p a target = (valuesOn p a target .decorate, valuesOn p a target .memberDecorate) := by
  have others : ∀ r ∈ a.on target, (!decide ((p.inst r).opcode = .decorate)) =
      decide ((p.inst r).opcode = .memberDecorate) := by
    intro r member
    have found := ((mem_on read).mp member).2
    unfold Instruction.target? at found
    split at found
    next annotates =>
      simp only [Instruction.annotates, Bool.or_eq_true, decide_eq_true_eq] at annotates
      rcases annotates with opcode | opcode <;> rw [opcode] <;> rfl
    next => cases found
  simp only [ofType, valuesOn, List.partition_eq_filter_filter, Function.comp_def]
  rw [List.filter_congr others]

/-! ### Longer annotations -/

theorem analyze_extended (analyzed : analyze p a r = .ok b) (grown : ∃ more, q.inst r = (p.inst r).extended more) :
    analyze q a r = .ok b := by
  obtain ⟨more, same⟩ := grown
  cases found : (p.inst r).target? with
  | some target =>
    have found' := Instruction.target?_extended more found
    rw [← same] at found'
    rw [← analyzed, analyze_of_target found, analyze_of_target found']
  | none =>
    have plain := plain_of_no_target analyzed found
    have plain' : (q.inst r).annotates = false := by
      rw [same]
      exact plain
    rw [← analyzed, analyze_of_plain plain, analyze_of_plain plain']

theorem foldlM_extended (analyzed : refs.foldlM (analyze p) a = .ok b)
    (grown : ∀ r ∈ refs, ∃ more, q.inst r = (p.inst r).extended more) : refs.foldlM (analyze q) a = .ok b := by
  induction refs generalizing a with
  | nil => exact analyzed
  | cons r rest ih =>
    rw [List.forall_mem_cons] at grown
    rw [List.foldlM_cons] at analyzed ⊢
    obtain ⟨c, first, others⟩ := except_bind_ok_iff.mp analyzed
    exact except_bind_ok_iff.mpr ⟨c, analyze_extended first grown.1, ih others grown.2⟩

end Annotations

end BlockTally
