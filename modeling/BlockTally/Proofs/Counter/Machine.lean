import BlockTally.Proofs.Counter.Increment
import Mathlib.Logic.Function.Basic

/-! Executing increments.

The counters are words of one width. While an increment is executed, its results are kept by their ids; the
constants that it refers to are looked up among the declarations of the module. A result that was not computed
before, another base than the buffer or an index outside of the counters has no next state.
-/

set_option autoImplicit false

namespace BlockTally

/-- What an instruction computes: the place of a counter, or a word. -/
inductive Datum (w : Nat) where
  | pointer (counter : Nat)
  | word (value : BitVec w)

structure Machine (w : Nat) where
  results : Id → Option (Datum w) := fun _ => none
  counters : List (BitVec w)

namespace Program

def constant? (p : Program) (id : Id) : Option Int :=
  let declaration := p.module.typesValues.find? fun r =>
    (p.inst r).opcode = .constant ∧ (p.inst r).resultId = id
  declaration.bind fun r =>
    match (p.inst r).operands.map Operand.value with
    | [.int value] => some value
    | _ => none

end Program

namespace Machine

variable {w : Nat}

def keep (m : Machine w) (id : Id) (datum : Datum w) : Machine w :=
  { m with results := Function.update m.results id (some datum) }

def pointer? (m : Machine w) (id : Id) : Option Nat :=
  match m.results id with
  | some (.pointer counter) => some counter
  | _ => none

def word? (p : Program) (m : Machine w) (id : Id) : Option (BitVec w) :=
  match m.results id with
  | some (.word value) => some value
  | some (.pointer _) => none
  | none => (p.constant? id).map (BitVec.ofInt w)

/-- The counters are the only member of the buffer. -/
def access (p : Program) (buffer : Id) (m : Machine w) (i : Instruction) : Option (Machine w) :=
  match i.operands.map Operand.value with
  | [.int base, .int member, .int index] =>
    if base = buffer ∧ p.constant? member = some 0 then do
      let counter ← p.constant? index
      if 0 ≤ counter ∧ counter < m.counters.length then
        some (m.keep i.resultId (.pointer counter.toNat))
      else none
    else none
  | _ => none

/-- Add to a counter in one step; the result is what it was before. -/
def atomicAdd (p : Program) (m : Machine w) (i : Instruction) : Option (Machine w) :=
  match i.operands.map Operand.value with
  | [.int pointer, .int _, .int _, .int one] => do
    let counter ← m.pointer? pointer
    let old ← m.counters[counter]?
    let more ← m.word? p one
    some { m.keep i.resultId (.word old) with counters := m.counters.set counter (old + more) }
  | _ => none

def load (m : Machine w) (i : Instruction) : Option (Machine w) :=
  match i.operands.map Operand.value with
  | [.int pointer] => do
    let counter ← m.pointer? pointer
    let value ← m.counters[counter]?
    some (m.keep i.resultId (.word value))
  | _ => none

def add (p : Program) (m : Machine w) (i : Instruction) : Option (Machine w) :=
  match i.operands.map Operand.value with
  | [.int left, .int right] => do
    let first ← m.word? p left
    let second ← m.word? p right
    some (m.keep i.resultId (.word (first + second)))
  | _ => none

def store (p : Program) (m : Machine w) (i : Instruction) : Option (Machine w) :=
  match i.operands.map Operand.value with
  | [.int pointer, .int value] => do
    let counter ← m.pointer? pointer
    let word ← m.word? p value
    if counter < m.counters.length then
      some { m with counters := m.counters.set counter word }
    else none
  | _ => none

def step (p : Program) (buffer : Id) (m : Machine w) (i : Instruction) : Option (Machine w) :=
  if i.opcode = .accessChain then m.access p buffer i
  else if i.opcode = .atomicIAdd then m.atomicAdd p i
  else if i.opcode = .load then m.load i
  else if i.opcode = .iAdd then m.add p i
  else if i.opcode = .store then m.store p i
  else none

def visit (p : Program) (buffer : Id) (insts : List Instruction) (counters : List (BitVec w)) :
    Option (List (BitVec w)) :=
  (insts.foldlM (step p buffer) { counters }).map Machine.counters

def visits (p : Program) (buffer : Id) (insts : BlockRef → List Instruction) (blocks : List BlockRef)
    (counters : List (BitVec w)) : Option (List (BitVec w)) :=
  blocks.foldlM (fun counters b => visit p buffer (insts b) counters) counters

end Machine

namespace Program

variable {p : Program}

def Lists (p : Program) (i : Instruction) : Prop :=
  ∃ r ∈ p.allInsts, p.inst r = i

theorem Declares.lists {i : Instruction} (h : p.Declares i) : p.Lists i := by
  obtain ⟨r, member, same⟩ := h
  exact ⟨r, mem_allInsts_of_list .typesValues member, same⟩

/-- A result id belongs to one instruction. -/
theorem eq_of_resultId (distinct : p.resultIds.Nodup) {r s : InstRef} (first : r ∈ p.allInsts) (second : s ∈ p.allInsts)
    (same : (p.inst r).resultId = (p.inst s).resultId) (result : (p.inst r).resultId ≠ 0) : r = s := by
  obtain ⟨front, back, split⟩ := List.append_of_mem first
  unfold resultIds at distinct
  rw [split, idsOf_append, idsOf_cons] at distinct
  obtain ⟨-, later, apart⟩ := List.nodup_append.mp distinct
  have own : (p.inst r).resultId ∈ (p.inst r).ownIds := Instruction.mem_ownIds.mpr ⟨rfl, result⟩
  have again {refs : List InstRef} (member : s ∈ refs) : (p.inst r).resultId ∈ p.idsOf refs :=
    mem_idsOf.mpr ⟨s, member, same.symm, result⟩
  rw [split] at second
  rcases List.mem_append.mp second with before | after
  · exact absurd rfl (apart _ (again before) _ (List.mem_append_left _ own))
  · rcases List.mem_cons.mp after with here | after
    · exact here.symm
    · exact absurd rfl ((List.nodup_append.mp later).2.2 _ own _ (again after))

theorem Lists.resultId_ne (distinct : p.resultIds.Nodup) {i j : Instruction} (first : p.Lists i) (second : p.Lists j)
    (other : i.opcode ≠ j.opcode) (result : i.resultId ≠ 0) : i.resultId ≠ j.resultId := by
  obtain ⟨r, member, rfl⟩ := first
  obtain ⟨s, member', rfl⟩ := second
  intro same
  obtain rfl := eq_of_resultId distinct member member' same result
  exact other rfl

/-- Ids that are referred to in a valid module are ids of something. -/
theorem Lists.operand_ne_zero (formed : p.WellFormed) {i : Instruction} (listed : p.Lists i) {id : Id}
    (member : Operand.ofId (.int id) ∈ i.operands) : id ≠ 0 := by
  obtain ⟨r, among, rfl⟩ := listed
  have used : Value.int id ∈ (p.inst r).usedIds := by
    apply List.mem_append_right
    exact List.mem_map.mpr ⟨_, List.mem_filter.mpr ⟨member, rfl⟩, rfl⟩
  obtain ⟨id', defined, same⟩ := formed.defined r among _ used
  cases same
  exact Int.ne_of_gt (formed.bounded _ defined).1

theorem constant_of_hasConstant (distinct : p.resultIds.Nodup) {id : Id} {value : Int} (nonzero : id ≠ 0)
    (h : p.HasConstant id (.int value)) : p.constant? id = some value := by
  obtain ⟨i, ⟨r, member, rfl⟩, constant, result, operands⟩ := h
  unfold constant?
  dsimp only
  cases found : p.module.typesValues.find? fun r => (p.inst r).opcode = .constant ∧ (p.inst r).resultId = id with
  | none =>
    rw [List.find?_eq_none] at found
    exact absurd (found r member) (by simp [constant, result])
  | some s =>
    have among := List.mem_of_find?_eq_some found
    have named := List.find?_some found
    simp only [decide_eq_true_eq] at named
    have same : r = s := by
      apply eq_of_resultId distinct (mem_allInsts_of_list .typesValues member) (mem_allInsts_of_list .typesValues among)
      · rw [result, named.2]
      · rw [result]
        exact nonzero
    subst same
    simp only [Option.bind_some, operands]

end Program

/-! ### Instructions one by one -/

namespace Machine

variable {w : Nat} {p : Program} {m : Machine w}

section
variable (m) (id : Id) (counter : Nat) (value : BitVec w)

@[simp] theorem pointer_keep : (m.keep id (.pointer counter)).pointer? id = some counter := by
  simp [pointer?, keep]

@[simp] theorem word_keep : (m.keep id (.word value)).word? p id = some value := by
  simp [word?, keep]

theorem pointer_keep_of_ne {other : Id} (datum : Datum w) (differ : other ≠ id) :
    (m.keep id datum).pointer? other = m.pointer? other := by
  simp [pointer?, keep, differ]

theorem word_keep_of_ne {other : Id} (datum : Datum w) (differ : other ≠ id) :
    (m.keep id datum).word? p other = m.word? p other := by
  simp [word?, keep, differ]

end

theorem word_start {counters : List (BitVec w)} {id : Id} {value : Int} (known : p.constant? id = some value) :
    ({ counters } : Machine w).word? p id = some (BitVec.ofInt w value) := by
  simp [word?, known]

theorem step_address {pointerType pointer buffer member index : Id} {number : Nat}
    (zero : p.constant? member = some 0) (place : p.constant? index = some number)
    (inside : number < m.counters.length) :
    m.step p buffer (Increment.address pointerType pointer buffer member index) =
      some (m.keep pointer (.pointer number)) := by
  simp [step, access, Increment.address, Operand.ofId, zero, place, inside]

theorem step_atomicAdd {counterType result pointer scope semantics one buffer : Id} {counter : Nat}
    {old more : BitVec w} (place : m.pointer? pointer = some counter) (found : m.counters[counter]? = some old)
    (added : m.word? p one = some more) :
    m.step p buffer (Increment.atomicAdd counterType result pointer scope semantics one) =
      some { m.keep result (.word old) with counters := m.counters.set counter (old + more) } := by
  simp [step, atomicAdd, Increment.atomicAdd, Operand.ofId, place, found, added]

theorem step_load {counterType result pointer buffer : Id} {counter : Nat} {value : BitVec w}
    (place : m.pointer? pointer = some counter) (found : m.counters[counter]? = some value) :
    m.step p buffer (Increment.load counterType result pointer) = some (m.keep result (.word value)) := by
  simp [step, load, Increment.load, Operand.ofId, place, found]

theorem step_add {counterType result left right buffer : Id} {first second : BitVec w}
    (known : m.word? p left = some first) (added : m.word? p right = some second) :
    m.step p buffer (Increment.add counterType result left right) =
      some (m.keep result (.word (first + second))) := by
  simp [step, add, Increment.add, Operand.ofId, known, added]

theorem step_store {pointer value buffer : Id} {counter : Nat} {word : BitVec w}
    (place : m.pointer? pointer = some counter) (known : m.word? p value = some word)
    (inside : counter < m.counters.length) : m.step p buffer (Increment.store pointer value) =
      some { m with counters := m.counters.set counter word } := by
  simp [step, store, Increment.store, Operand.ofId, place, known, inside]

end Machine

/-! ### Visits -/

namespace Machine

variable {w : Nat} {p : Program} {o : Increment.Operands} {atomic : Bool} {insts : List Instruction} {number : Nat}
  {counters : List (BitVec w)}

structure Grounded (p : Program) (o : Increment.Operands) (number : Nat) : Prop where
  formed : p.WellFormed
  member : p.constant? o.member = some 0
  index : p.constant? o.index = some number
  one : p.constant? o.one = some 1
  constant : ∃ i, p.Lists i ∧ i.opcode = .constant ∧ i.resultId = o.one

theorem Grounded.one_ne (h : Grounded p o number) {i : Instruction} (listed : p.Lists i) (result : i.resultId ≠ 0)
    (other : i.opcode ≠ .constant) : o.one ≠ i.resultId := by
  obtain ⟨c, declared, constant, same⟩ := h.constant
  rw [← same]
  have apart := listed.resultId_ne h.formed.distinct declared (constant ▸ other) result
  exact apart.symm

theorem modify_eq_set {number : Nat} {old : BitVec w} (found : counters[number]? = some old) :
    counters.modify number (· + 1) = counters.set number (old + BitVec.ofInt w 1) := by
  rw [List.modify_eq_set_getElem?, found]
  rfl

theorem Grounded.step_address (h : Grounded p o number) (inside : number < counters.length) (pointer : Id) :
    ({ counters } : Machine w).step p o.buffer
      (Increment.address o.pointerType pointer o.buffer o.member o.index) =
        some (({ counters } : Machine w).keep pointer (.pointer number)) :=
  Machine.step_address h.member h.index inside

theorem visit_atomic {pointer result scope semantics : Id} (grounded : Grounded p o number)
    (inside : number < counters.length)
    (first : p.Lists (Increment.address o.pointerType pointer o.buffer o.member o.index))
    (second : p.Lists (Increment.atomicAdd o.counterType result pointer scope semantics o.one)) :
    visit p o.buffer [Increment.address o.pointerType pointer o.buffer o.member o.index,
      Increment.atomicAdd o.counterType result pointer scope semantics o.one] counters =
        some (counters.modify number (· + 1)) := by
  let start : Machine w := { counters }
  have found : start.counters[number]? = some counters[number] := List.getElem?_eq_getElem inside
  -- Ids that are used are results of something, and different instructions have different results.
  have pointer_ne : pointer ≠ 0 := second.operand_ne_zero grounded.formed (List.mem_cons_self ..)
  have one_pointer : o.one ≠ pointer := grounded.one_ne first pointer_ne (by simp [Increment.address])
  have added := (word_keep_of_ne start _ (.pointer number) one_pointer).trans (word_start grounded.one)
  rw [modify_eq_set found]
  unfold visit
  rw [List.foldlM_cons, grounded.step_address inside, Option.bind_eq_bind, Option.bind_some]
  rw [List.foldlM_cons, step_atomicAdd (pointer_keep start pointer number) found added]
  rfl

theorem visit_plain {pointer value sum : Id} (grounded : Grounded p o number) (inside : number < counters.length)
    (first : p.Lists (Increment.address o.pointerType pointer o.buffer o.member o.index))
    (second : p.Lists (Increment.load o.counterType value pointer))
    (third : p.Lists (Increment.add o.counterType sum value o.one)) :
    visit p o.buffer [Increment.address o.pointerType pointer o.buffer o.member o.index,
      Increment.load o.counterType value pointer, Increment.add o.counterType sum value o.one,
      Increment.store pointer sum] counters = some (counters.modify number (· + 1)) := by
  have distinct := grounded.formed.distinct
  have pointer_ne : pointer ≠ 0 := second.operand_ne_zero grounded.formed (List.mem_cons_self ..)
  have value_ne : value ≠ 0 := third.operand_ne_zero grounded.formed (List.mem_cons_self ..)
  have pointer_value : pointer ≠ value :=
    first.resultId_ne distinct second (by simp [Increment.address, Increment.load]) pointer_ne
  have pointer_sum : pointer ≠ sum :=
    first.resultId_ne distinct third (by simp [Increment.address, Increment.add]) pointer_ne
  have one_pointer : o.one ≠ pointer := grounded.one_ne first pointer_ne (by simp [Increment.address])
  have one_value : o.one ≠ value := grounded.one_ne second value_ne (by simp [Increment.load])
  -- The states after the address, the load and the addition.
  let start : Machine w := { counters }
  let m₁ := start.keep pointer (.pointer number)
  let m₂ := m₁.keep value (.word counters[number])
  let m₃ := m₂.keep sum (.word (counters[number] + BitVec.ofInt w 1))
  have found : start.counters[number]? = some counters[number] := List.getElem?_eq_getElem inside
  have place₂ : m₂.pointer? pointer = some number := by
    rw [pointer_keep_of_ne _ _ _ pointer_value]
    exact pointer_keep ..
  have place₃ : m₃.pointer? pointer = some number := by
    rw [pointer_keep_of_ne _ _ _ pointer_sum]
    exact place₂
  have added : m₂.word? p o.one = some (BitVec.ofInt w 1) := by
    rw [word_keep_of_ne _ _ _ one_value, word_keep_of_ne _ _ _ one_pointer]
    exact word_start grounded.one
  rw [modify_eq_set found]
  unfold visit
  simp only [List.foldlM_cons, Option.bind_eq_bind]
  rw [grounded.step_address inside, Option.bind_some]
  rw [step_load (pointer_keep start pointer number) found, Option.bind_some]
  rw [step_add (word_keep ..) added, Option.bind_some]
  rw [step_store place₃ (word_keep ..) inside]
  rfl

/-- A whole increment adds one to its counter. -/
theorem visit_of_form (form : Increment.Form o atomic insts) (grounded : Grounded p o number)
    (listed : ∀ i ∈ insts, p.Lists i) (inside : number < counters.length) :
    visit p o.buffer insts counters = some (counters.modify number (· + 1)) := by
  cases form with
  | atomic =>
    rw [List.forall_mem_cons, List.forall_mem_singleton] at listed
    exact visit_atomic grounded inside listed.1 listed.2
  | plain =>
    rw [Increment.loadAddStore_eq] at *
    rw [List.forall_mem_cons, List.forall_mem_cons, List.forall_mem_cons, List.forall_mem_singleton] at listed
    exact visit_plain grounded inside listed.1 listed.2.1 listed.2.2.1

end Machine

end BlockTally
