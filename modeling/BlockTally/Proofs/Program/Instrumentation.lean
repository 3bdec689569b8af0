import BlockTally.Proofs.Program.Linked

/-! Instrumented programs keep the rules of form.

Instructions that are put in at the insertion point of a block leave its variables in front and its
terminator at the end. A module that grows and has such blocks in place of its own stays well formed as
long as its ids are linked.
-/

set_option autoImplicit false

namespace BlockTally.Program

/-- All names that the module lists were given out. What is listed is an instruction that was made, so only a
program that is put together by hand can break this. -/
def Closed (p : Program) : Prop :=
  ∀ r ∈ p.allInsts, p.Holds r

instance (p : Program) : Decidable p.Closed :=
  inferInstanceAs (Decidable (∀ r ∈ p.allInsts, _))

def Movable (i : Instruction) : Prop :=
  i.isTerminator = false ∧ i.opcode ≠ .label ∧ i.opcode ≠ .var

variable {p q : Program} {f : FuncRef} {b : BlockRef}

/-! ### Insertion points -/

theorem leading_congr {op : Opcode} {refs : List InstRef}
    (same : ∀ r ∈ refs, (q.inst r).opcode = (p.inst r).opcode) : q.leading op refs = p.leading op refs := by
  induction refs with
  | nil => rfl
  | cons r rest ih =>
    rw [List.forall_mem_cons] at same
    have rest := ih same.2
    unfold leading at *
    by_cases here : (p.inst r).opcode = op
    · simp [same.1, here, rest]
    · simp [same.1, here]

theorem insertionPoint_congr (body : q.body b = p.body b)
    (same : ∀ r ∈ p.body b, (q.inst r).opcode = (p.inst r).opcode) : q.insertionPoint b = p.insertionPoint b := by
  have start : q.variablesEnd b = p.variablesEnd b := by
    unfold variablesEnd
    rw [body]
    exact leading_congr same
  unfold insertionPoint
  rw [start, body, leading_congr fun r member => same r (List.mem_of_mem_drop member)]

theorem leading_le_of_last {op : Opcode} {init : List InstRef} {last : InstRef}
    (other : (p.inst last).opcode ≠ op) : p.leading op (init ++ [last]) ≤ init.length := by
  unfold leading
  induction init with
  | nil => simp [other]
  | cons r rest ih =>
    rw [List.cons_append, List.takeWhile_cons]
    split
    · simpa using ih
    · simp

theorem length_le_leading {op : Opcode} {front back : List InstRef}
    (all : ∀ r ∈ front, (p.inst r).opcode = op) : front.length ≤ p.leading op (front ++ back) := by
  unfold leading
  induction front with
  | nil => simp
  | cons r rest ih =>
    rw [List.forall_mem_cons] at all
    rw [List.cons_append, List.takeWhile_cons, if_pos (by simp [all.1])]
    simpa using ih all.2

theorem opcode_of_mem_leading {op : Opcode} {refs : List InstRef} {r : InstRef}
    (member : r ∈ refs.take (p.leading op refs)) : (p.inst r).opcode = op := by
  unfold leading at member
  induction refs with
  | nil => simp at member
  | cons s rest ih =>
    rw [List.takeWhile_cons] at member
    split at member
    next here =>
      rw [List.length_cons, List.take_succ_cons] at member
      rcases List.mem_cons.mp member with rfl | later
      · simpa using here
      · exact ih later
    next => simp at member

theorem opcode_of_head_drop_leading {op : Opcode} {refs : List InstRef} {r : InstRef}
    (head : (refs.drop (p.leading op refs)).head? = some r) : (p.inst r).opcode ≠ op := by
  unfold leading at head
  induction refs with
  | nil => cases head
  | cons s rest ih =>
    rw [List.takeWhile_cons] at head
    split at head
    · exact ih head
    next here =>
      obtain rfl := Option.some.inj head
      simpa using here

structure LeadIn (p : Program) (body vars phis rest : List InstRef) : Prop where
  split : body = vars ++ phis ++ rest
  onlyVars : ∀ r ∈ vars, (p.inst r).opcode = .var
  onlyPhis : ∀ r ∈ phis, (p.inst r).opcode = .phi
  noVar : ∀ r, (phis ++ rest).head? = some r → (p.inst r).opcode ≠ .var
  noPhi : ∀ r, rest.head? = some r → (p.inst r).opcode ≠ .phi

/-- The insertion point is behind both runs. -/
theorem exists_leadIn (p : Program) (b : BlockRef) : ∃ vars phis, vars ++ phis = (p.body b).take (p.insertionPoint b) ∧
    p.LeadIn (p.body b) vars phis ((p.body b).drop (p.insertionPoint b)) := by
  let behind := (p.body b).drop (p.variablesEnd b)
  let phis := behind.take (p.leading .phi behind)
  have rest : (p.body b).drop (p.insertionPoint b) = behind.drop (p.leading .phi behind) := by
    unfold insertionPoint
    rw [← List.drop_drop]
  have front : (p.body b).take (p.variablesEnd b) ++ phis = (p.body b).take (p.insertionPoint b) := by
    unfold insertionPoint
    rw [List.take_add]
  refine ⟨_, phis, front, ?_⟩
  constructor
  case split => rw [front, List.take_append_drop]
  case onlyVars => exact fun r member => opcode_of_mem_leading member
  case onlyPhis => exact fun r member => opcode_of_mem_leading member
  case noVar =>
    rw [rest, List.take_append_drop]
    exact fun r head => opcode_of_head_drop_leading head
  case noPhi =>
    rw [rest]
    exact fun r head => opcode_of_head_drop_leading head

/-- There is always an instruction behind the insertion point of a block that ends. -/
theorem WellFormedBlock.insertionPoint_lt (h : p.WellFormedBlock f b) :
    p.insertionPoint b < (p.body b).length := by
  obtain ⟨init, last, body, ends, -⟩ := h.ends
  have other {op : Opcode} (plain : op.isTerminator = false) : (p.inst last).opcode ≠ op := by
    rintro rfl
    exact absurd ends (by simp [Instruction.isTerminator, plain])
  -- Neither run can go beyond the terminator.
  have start : p.variablesEnd b ≤ init.length := by
    unfold variablesEnd
    rw [body]
    exact leading_le_of_last (other (by decide))
  have phis : p.leading .phi ((p.body b).drop (p.variablesEnd b)) ≤ init.length - p.variablesEnd b := by
    rw [body, List.drop_append_of_le_length start, ← List.length_drop]
    exact leading_le_of_last (other (by decide))
  have length : (p.body b).length = init.length + 1 := by rw [body, List.length_append]; rfl
  unfold insertionPoint
  omega

theorem variablesEnd_le_insertionPoint (p : Program) (b : BlockRef) : p.variablesEnd b ≤ p.insertionPoint b :=
  Nat.le_add_right _ _

/-! ### Blocks -/

theorem Grows.entryBlock (h : p.Grows q) (f : FuncRef) : q.entryBlock? f = p.entryBlock? f := by
  unfold entryBlock?
  rw [h.function]

theorem Grows.isTerminator (h : p.Grows q) {r : InstRef} (old : p.Holds r) :
    (q.inst r).isTerminator = (p.inst r).isTerminator := by
  unfold Instruction.isTerminator
  rw [h.opcode old]

/-- Insertions of new instructions keep a program grown. -/
theorem Grows.inserted (h : p.Grows q) (b : BlockRef) (gap : Nat) {refs : List InstRef}
    (new : ∀ r ∈ refs, p.instructions.size ≤ r.index) : p.Grows (q.inserted b gap refs) where
  size_le := by
    rw [size_inserted]
    exact h.size_le
  inst old plain := (inst_inserted _).trans (h.inst old plain)
  extended old := by
    rw [inst_inserted]
    exact h.extended old
  blockOf {r} old := by
    rw [blockOf_inserted_of_not_mem, h.blockOf old]
    intro member
    exact absurd old (Nat.not_lt.mpr (new r member))
  functions := functions_inserted.trans h.functions
  module := by
    rw [module_inserted]
    exact h.module

theorem Grows.listedBlocks (h : p.Grows q) : q.listedBlocks = p.listedBlocks := by
  unfold Program.listedBlocks
  rw [h.module.functions]
  congr 1
  funext f
  rw [h.function]

theorem Grows.blockId (h : p.Grows q) (label : (q.block b).label = (p.block b).label)
    (old : p.Holds (p.block b).label) : q.blockId b = p.blockId b := by
  unfold Program.blockId
  rw [label, h.resultId old]

theorem WellFormedBlock.unchanged (h : p.WellFormedBlock f b) (grows : p.Grows q)
    (held : ∀ r ∈ p.body b, p.Holds r) (same : q.block b = p.block b) : q.WellFormedBlock f b := by
  have body : q.body b = p.body b := by
    unfold Program.body
    rw [same]
  have opcode {r : InstRef} (member : r ∈ p.body b) := grows.opcode (held r member)
  constructor
  case owner =>
    rw [same]
    exact h.owner
  case ends =>
    obtain ⟨init, last, split, ends, early⟩ := h.ends
    have among {r : InstRef} (member : r ∈ init) : p.Holds r := held r (split ▸ List.mem_append_left _ member)
    refine ⟨init, last, body.trans split, ?_, fun r member => ?_⟩
    · rw [grows.isTerminator (held last (split ▸ List.mem_append_right _ (List.mem_singleton_self _)))]
      exact ends
    · rw [grows.isTerminator (among member)]
      exact early r member
  case placed =>
    rw [body]
    exact fun r member => (grows.blockOf (held r member)).trans (h.placed r member)
  case unlabeled =>
    rw [body]
    exact fun r member => opcode member ▸ h.unlabeled r member
  case varsLead =>
    have room : q.variableRoom f b = p.variableRoom f b := by
      unfold variableRoom variablesEnd
      rw [grows.entryBlock, body, leading_congr fun r member => opcode member]
    rw [body, room]
    exact fun r member => opcode (List.mem_of_mem_drop member) ▸ h.varsLead r member

/-- The block with instructions in front of the first one that is neither variable nor phi. -/
def instrumented (p : Program) (b : BlockRef) (refs : List InstRef) : Block :=
  { p.block b with
    body := (p.body b).take (p.insertionPoint b) ++ refs ++ (p.body b).drop (p.insertionPoint b) }

theorem mem_instrumented {refs : List InstRef} {r : InstRef} :
    r ∈ (p.instrumented b refs).body ↔ r ∈ p.body b ∨ r ∈ refs := by
  have split := List.take_append_drop (p.insertionPoint b) (p.body b)
  simp only [instrumented, List.mem_append]
  constructor
  · rintro ((front | new) | back)
    · exact .inl (List.mem_of_mem_take front)
    · exact .inr new
    · exact .inl (List.mem_of_mem_drop back)
  · rintro (old | new)
    · rw [← split, List.mem_append] at old
      rcases old with front | back
      · exact .inl (.inl front)
      · exact .inr back
    · exact .inl (.inr new)

/-- The variables in front, and what stands behind them. -/
theorem body_instrumented (p : Program) (b : BlockRef) (refs : List InstRef) :
    (p.instrumented b refs).body = (p.body b).take (p.variablesEnd b) ++
      (((p.body b).drop (p.variablesEnd b)).take (p.insertionPoint b - p.variablesEnd b) ++ refs ++
        (p.body b).drop (p.insertionPoint b)) := by
  have front : (p.body b).take (p.insertionPoint b) = (p.body b).take (p.variablesEnd b) ++
      ((p.body b).drop (p.variablesEnd b)).take (p.insertionPoint b - p.variablesEnd b) := by
    rw [← List.take_add, Nat.add_sub_cancel' (p.variablesEnd_le_insertionPoint b)]
  unfold instrumented
  rw [front]
  simp only [List.append_assoc]

/-- The terminator stays the last instruction, and what comes before it is old or new. -/
theorem WellFormedBlock.ends_instrumented (h : p.WellFormedBlock f b) (refs : List InstRef) :
    ∃ init last, (p.instrumented b refs).body = init ++ [last] ∧ last ∈ p.body b ∧
      (p.inst last).isTerminator = true ∧
      ∀ r ∈ init, r ∈ refs ∨ r ∈ p.body b ∧ (p.inst r).isTerminator = false := by
  obtain ⟨init, last, split, ends, early⟩ := h.ends
  have inside : p.insertionPoint b ≤ init.length := by
    have := h.insertionPoint_lt
    rw [split, List.length_append, List.length_singleton] at this
    omega
  have split' : (p.instrumented b refs).body =
      ((p.body b).take (p.insertionPoint b) ++ refs ++ init.drop (p.insertionPoint b)) ++ [last] := by
    rw [List.append_assoc _ _ [last], ← List.drop_append_of_le_length inside, ← split]
    rfl
  have old {r : InstRef} (member : r ∈ init) : r ∈ p.body b ∧ (p.inst r).isTerminator = false :=
    ⟨split ▸ List.mem_append_left _ member, early r member⟩
  refine ⟨_, last, split', split ▸ List.mem_append_right _ (List.mem_singleton_self _), ends, fun r member => ?_⟩
  rcases List.mem_append.mp member with front | back
  · rcases List.mem_append.mp front with front | new
    · rw [split, List.take_append_of_le_length inside] at front
      exact .inr (old (List.mem_of_mem_take front))
    · exact .inl new
  · exact .inr (old (List.mem_of_mem_drop back))

/-- The old variables still lead the block. -/
theorem Grows.variablesEnd_le {refs : List InstRef} (h : p.Grows q) (held : ∀ r ∈ p.body b, p.Holds r)
    (body : q.body b = (p.instrumented b refs).body) : p.variablesEnd b ≤ q.variablesEnd b := by
  have length : ((p.body b).take (p.variablesEnd b)).length = p.variablesEnd b :=
    List.length_take_of_le (p.leading_le _ _)
  rw [← length]
  unfold variablesEnd at *
  rw [body.trans (p.body_instrumented b refs)]
  apply length_le_leading
  intro r member
  rw [h.opcode (held r (List.mem_of_mem_take member))]
  exact opcode_of_mem_leading member

theorem mem_drop_instrumented {refs : List InstRef} {r : InstRef} {place : Nat} (later : p.variablesEnd b ≤ place)
    (member : r ∈ (p.instrumented b refs).body.drop place) :
    r ∈ refs ∨ r ∈ (p.body b).drop (p.variablesEnd b) := by
  have length : ((p.body b).take (p.variablesEnd b)).length = p.variablesEnd b :=
    List.length_take_of_le (p.leading_le _ _)
  rw [← Nat.add_sub_cancel' later, ← List.drop_drop] at member
  have behind := List.mem_of_mem_drop member
  rw [body_instrumented, List.drop_left' length, List.mem_append, List.mem_append] at behind
  rcases behind with (front | new) | back
  · exact .inr (List.mem_of_mem_take front)
  · exact .inl new
  · rw [← Nat.add_sub_cancel' (p.variablesEnd_le_insertionPoint b), ← List.drop_drop] at back
    exact .inr (List.mem_of_mem_drop back)

/-- New instructions at the insertion point stand behind the variables and before the terminator. -/
theorem WellFormedBlock.instrumented {refs : List InstRef} (h : p.WellFormedBlock f b) (grows : p.Grows q)
    (held : ∀ r ∈ p.body b, p.Holds r) (block : q.block b = p.instrumented b refs)
    (placed : ∀ r ∈ refs, q.blockOf? r = some b) (movable : ∀ r ∈ refs, Movable (q.inst r)) :
    q.WellFormedBlock f b := by
  have body : q.body b = (p.instrumented b refs).body := congrArg Block.body block
  have opcode {r : InstRef} (member : r ∈ p.body b) := grows.opcode (held r member)
  have cases_body {r : InstRef} (member : r ∈ q.body b) : r ∈ p.body b ∨ r ∈ refs := by
    rw [body] at member
    exact mem_instrumented.mp member
  constructor
  case owner =>
    rw [block]
    exact h.owner
  case ends =>
    obtain ⟨init, last, split, among, ends, early⟩ := h.ends_instrumented refs
    refine ⟨init, last, body.trans split, (grows.isTerminator (held last among)).trans ends, fun r member => ?_⟩
    rcases early r member with new | ⟨old, plain⟩
    · exact (movable r new).1
    · exact (grows.isTerminator (held r old)).trans plain
  case placed =>
    intro r member
    rcases cases_body member with old | new
    · exact (grows.blockOf (held r old)).trans (h.placed r old)
    · exact placed r new
  case unlabeled =>
    intro r member
    rcases cases_body member with old | new
    · exact opcode old ▸ h.unlabeled r old
    · exact (movable r new).2.1
  case varsLead =>
    intro r member
    have variables_lead := h.varsLead
    unfold variableRoom at variables_lead member
    -- In the entry block the new instructions stand behind all variables; elsewhere no variables are allowed, and
    -- none are new.
    by_cases entry : p.entryBlock? f = some b
    · rw [if_pos entry] at variables_lead
      rw [grows.entryBlock, if_pos entry, body] at member
      rcases mem_drop_instrumented (grows.variablesEnd_le held body) member with new | behind
      · exact (movable r new).2.2
      · exact opcode (List.mem_of_mem_drop behind) ▸ variables_lead r behind
    · rw [if_neg entry] at variables_lead
      rcases cases_body (List.mem_of_mem_drop member) with old | new
      · exact opcode old ▸ variables_lead r old
      · exact (movable r new).2.2

def KeptOrInstrumented (p q : Program) (b : BlockRef) : Prop :=
  q.block b = p.block b ∨ ∃ refs, q.block b = p.instrumented b refs ∧
    (∀ r ∈ refs, q.blockOf? r = some b) ∧ ∀ r ∈ refs, Movable (q.inst r)

theorem value_extended {i : Instruction} {more : List Operand} {place : Nat} {v : Value}
    (found : i.value place = .ok v) : (i.extended more).value place = .ok v := by
  unfold Instruction.value at *
  cases operand : i.operands[place]? with
  | none => simp [operand] at found
  | some o =>
    have extended : (i.extended more).operands[place]? = some o := by
      unfold Instruction.extended
      rw [List.getElem?_append_left (List.getElem?_eq_some_iff.mp operand).1, operand]
    rw [operand] at found
    rw [extended]
    exact found

/-- A module stays well formed when it grows, its ids stay linked and its blocks get new instructions at
their insertion points. -/
theorem WellFormed.of_grows (formed : p.WellFormed) (closed : p.Closed) (grows : p.Grows q) (linked : q.Linked [])
    (blocks : ∀ b ∈ p.listedBlocks, p.KeptOrInstrumented q b) : q.WellFormed := by
  have inside {f : FuncRef} (member : f ∈ p.module.functions) {r : InstRef} (among : r ∈ p.functionInsts f) :
      r ∈ p.allInsts := List.mem_append_right _ (List.mem_flatMap.mpr ⟨f, member, among⟩)
  have functionId {f : FuncRef} (member : f ∈ p.module.functions) : q.functionId f = p.functionId f := by
    unfold Program.functionId
    rw [grows.function]
    exact grows.resultId (closed _ (inside member (by simp [functionInsts])))
  constructor
  case distinct => simpa using linked.distinct
  case bounded => simpa using linked.bounded
  case defined => exact linked.defined
  case entryPoints =>
    intro r member
    rw [grows.module.entryPoints] at member
    obtain ⟨id, value, f, listed, named⟩ := formed.entryPoints r member
    -- Entry points may have got longer, but the function is named in front.
    obtain ⟨more, same⟩ := grows.extended (closed r (mem_allInsts_of_list .entryPoints member))
    refine ⟨id, ?_, f, grows.module.functions ▸ listed, functionId listed ▸ named⟩
    rw [same]
    exact value_extended value
  case functions =>
    intro f member
    rw [grows.module.functions] at member
    obtain ⟨nonempty, each⟩ := formed.functions f member
    rw [grows.function]
    refine ⟨nonempty, fun b among => ?_⟩
    have listed : b ∈ p.listedBlocks := mem_listedBlocks.mpr ⟨f, member, among⟩
    have held : ∀ r ∈ p.body b, p.Holds r := fun r here =>
      closed r (mem_allInsts.mpr (.inr ⟨b, listed, List.mem_cons_of_mem _ here⟩))
    rcases blocks b listed with same | ⟨refs, block, placed, movable⟩
    · exact (each b among).unchanged grows held same
    · exact (each b among).instrumented grows held block placed movable

end BlockTally.Program
