import BlockTally.Counter.Increment
import BlockTally.Proofs.Counter.Buffer
import BlockTally.Proofs.Program.Instrumentation

/-! Increments.

An increment is made whole or not at all: its instructions are new, their result ids are new, and everything
they refer to is declared, the counter by the constant of its number.
-/

set_option autoImplicit false

namespace BlockTally

open Account Contract

namespace Increment

/-! ### The instructions of an increment -/

def load (counterType result pointer : Id) : Instruction :=
  { opcode := .load, typeId := counterType, resultId := result, operands := [.ofId (.int pointer)] }

def add (counterType result left right : Id) : Instruction :=
  { opcode := .iAdd, typeId := counterType, resultId := result
    operands := [.ofId (.int left), .ofId (.int right)] }

def store (pointer value : Id) : Instruction :=
  { opcode := .store, operands := [.ofId (.int pointer), .ofId (.int value)] }

theorem loadAddStore_eq (counterType value sum pointer one : Id) :
    loadAddStore counterType value sum pointer one =
      [load counterType value pointer, add counterType sum value one, store pointer sum] := rfl

/-- The ids that an increment refers to, apart from its own results. -/
structure Operands where
  pointerType : Id
  counterType : Id
  buffer : Id
  member : Id
  index : Id
  one : Id

inductive Form (o : Operands) : Bool → List Instruction → Prop where
  | atomic (pointer result scope semantics : Id) :
      Form o true [address o.pointerType pointer o.buffer o.member o.index,
        atomicAdd o.counterType result pointer scope semantics o.one]
  | plain (pointer value sum : Id) :
      Form o false (address o.pointerType pointer o.buffer o.member o.index ::
        loadAddStore o.counterType value sum pointer o.one)

variable {o : Operands} {atomic : Bool} {insts : List Instruction}

theorem Form.ne_nil (h : Form o atomic insts) : insts ≠ [] := by
  cases h <;> exact List.cons_ne_nil _ _

/-- No instruction of an increment is bound to a place of its own in a block. -/
theorem Form.movable (h : Form o atomic insts) {i : Instruction} (member : i ∈ insts) : Program.Movable i := by
  cases h with
  | atomic =>
    simp only [List.mem_cons, List.not_mem_nil, or_false] at member
    rcases member with rfl | rfl <;> exact ⟨rfl, by simp [address, atomicAdd], by simp [address, atomicAdd]⟩
  | plain =>
    simp only [loadAddStore, List.mem_cons, List.not_mem_nil, or_false] at member
    rcases member with rfl | rfl | rfl | rfl <;> exact ⟨rfl, by simp [address], by simp [address]⟩

/-- No function is called. -/
theorem Form.not_call (h : Form o atomic insts) {i : Instruction} (member : i ∈ insts) : i.opcode ≠ .functionCall := by
  cases h with
  | atomic =>
    simp only [List.mem_cons, List.not_mem_nil, or_false] at member
    rcases member with rfl | rfl <;> simp [address, atomicAdd]
  | plain =>
    simp only [loadAddStore, List.mem_cons, List.not_mem_nil, or_false] at member
    rcases member with rfl | rfl | rfl | rfl <;> simp [address]

def ownIds (insts : List Instruction) : List Id :=
  insts.flatMap Instruction.ownIds

theorem mem_ownIds {i : Instruction} {id : Id} (member : i ∈ insts) (result : i.resultId = id) (nonzero : id ≠ 0) :
    id ∈ ownIds insts :=
  List.mem_flatMap.mpr ⟨i, member, Instruction.mem_ownIds.mpr ⟨result, nonzero⟩⟩

theorem mem_usedIds {i : Instruction} {v : Value} (used : v ∈ i.usedIds) :
    v = .int i.typeId ∨ v ∈ (i.operands.filter Operand.isId).map Operand.value := by
  unfold Instruction.usedIds at used
  rcases List.mem_append.mp used with type | operand
  · split at type
    · exact .inl (List.mem_singleton.mp type)
    · cases type
  · exact .inr operand

theorem mem_usedIds_address {pointerType pointer buffer member index : Id} {v : Value}
    (used : v ∈ (address pointerType pointer buffer member index).usedIds) :
    v = .int pointerType ∨ v = .int buffer ∨ v = .int member ∨ v = .int index := by
  rcases mem_usedIds used with type | operand
  · exact .inl type
  · change v ∈ [Value.int buffer, Value.int member, Value.int index] at operand
    simpa using Or.inr operand

theorem mem_usedIds_atomicAdd {counterType result pointer scope semantics one : Id} {v : Value}
    (used : v ∈ (atomicAdd counterType result pointer scope semantics one).usedIds) :
    v = .int counterType ∨ v = .int pointer ∨ v = .int scope ∨ v = .int semantics ∨ v = .int one := by
  rcases mem_usedIds used with type | operand
  · exact .inl type
  · change v ∈ [Value.int pointer, Value.int scope, Value.int semantics, Value.int one] at operand
    simpa using Or.inr operand

theorem mem_usedIds_loadAddStore {counterType value sum pointer one : Id} {i : Instruction} {v : Value}
    (member : i ∈ loadAddStore counterType value sum pointer one) (used : v ∈ i.usedIds) :
    v = .int counterType ∨ v = .int pointer ∨ v = .int one ∨ v = .int value ∨ v = .int sum := by
  unfold loadAddStore at member
  simp only [List.mem_cons, List.not_mem_nil, or_false] at member
  rcases member with rfl | rfl | rfl
  · rcases mem_usedIds used with type | operand
    · exact .inl type
    · change v ∈ [Value.int pointer] at operand
      exact .inr (.inl (List.mem_singleton.mp operand))
  · rcases mem_usedIds used with type | operand
    · exact .inl type
    · change v ∈ [Value.int value, Value.int one] at operand
      simp only [List.mem_cons, List.not_mem_nil, or_false] at operand
      rcases operand with rfl | rfl
      · exact .inr (.inr (.inr (.inl rfl)))
      · exact .inr (.inr (.inl rfl))
  · change v ∈ [Value.int pointer, Value.int sum] at used
    simp only [List.mem_cons, List.not_mem_nil, or_false] at used
    rcases used with rfl | rfl
    · exact .inr (.inl rfl)
    · exact .inr (.inr (.inr (.inr rfl)))

def Closed (p : Program) (insts : List Instruction) : Prop :=
  ∀ i ∈ insts, ∀ v ∈ i.usedIds, p.Defines v ∨ ∃ id ∈ ownIds insts, v = .int id

/-- The address may use what is defined, and the other instructions the address and each other. -/
theorem closed_of_address {p : Program} {pointer : Id} {rest : List Instruction}
    (pointerType : p.Defines (.int o.pointerType)) (buffer : p.Defines (.int o.buffer))
    (member : p.Defines (.int o.member)) (index : p.Defines (.int o.index)) (result : pointer ≠ 0)
    (uses : ∀ i ∈ rest, ∀ v ∈ i.usedIds, p.Defines v ∨ v = .int pointer ∨ ∃ id ∈ ownIds rest, v = .int id) :
    Closed p (address o.pointerType pointer o.buffer o.member o.index :: rest) := by
  intro i among v used
  rcases List.mem_cons.mp among with rfl | among
  · rcases mem_usedIds_address used with rfl | rfl | rfl | rfl
    · exact .inl pointerType
    · exact .inl buffer
    · exact .inl member
    · exact .inl index
  · rcases uses i among v used with known | rfl | ⟨id, own, rfl⟩
    · exact .inl known
    · exact .inr ⟨pointer, mem_ownIds (List.mem_cons_self ..) rfl result, rfl⟩
    · exact .inr ⟨id, List.mem_append_right _ own, rfl⟩

end Increment

namespace Job

/-! ### The parts of an increment -/

def assemble (atomic : Bool) (o : Increment.Operands) : Provision (List InstRef) := do
  let pointer ← Program.takeId
  let address := Increment.address o.pointerType pointer o.buffer o.member o.index
  let rest ← addOne atomic o.counterType pointer o.one
  let refs ← (address :: rest).mapM fun i => Program.newInst i
  refs.forM fun r => Workspace.record r
  return refs

/-- The part of an increment that comes after the request for the buffer. -/
def fill (atomic : Bool) (traceIndex : Int) (buffer : Id) : Provision (List InstRef) := do
  let pointerType ← pointerTypeId
  let counterType ← counterTypeId
  let member ← Workspace.uintConstantId (.int 0) (.int 32)
  let index ← Workspace.uintConstantId (.int traceIndex) (.int 32)
  let one ← Workspace.uintConstantId (.int 1) (.int (← get).buffer.width)
  assemble atomic { pointerType, counterType, buffer, member, index, one }

theorem increment_eq (atomic : Bool) (traceIndex : Int) : increment atomic traceIndex = (do
    discard <| Workspace.needConstants
    let buffer ← bufferId
    fill atomic traceIndex buffer) := rfl

variable {α : Type} {good : Prop} {j : Job}

structure Provides (j : Job) (traceIndex : Int) (o : Increment.Operands) : Prop where
  buffer : j.HasVariable o.buffer
  member : j.workspace.program.HasConstant o.member (.int 0)
  index : j.workspace.program.HasConstant o.index (.int traceIndex)
  one : j.workspace.program.HasConstant o.one (.int 1)

theorem Advances.provides {j' : Job} (h : j.Advances good j') (sane : j.Sane good) {traceIndex : Int}
    {o : Increment.Operands} (known : good → j.Provides traceIndex o) : good → j'.Provides traceIndex o := by
  intro assumed
  have constant {id : Id} {value : Value} (declared : j.workspace.program.HasConstant id value) :
      j'.workspace.program.HasConstant id value :=
    h.workspace.hasConstant sane.workspace (fun _ => declared) assumed
  obtain ⟨buffer, member, index, one⟩ := known assumed
  exact ⟨h.hasVariable sane (fun _ => buffer) assumed, constant member, constant index, constant one⟩

theorem Advances.defines {j' : Job} (h : j.Advances good j') (sane : j.Sane good) {v : Value}
    (known : good → j.workspace.program.Defines v) : good → j'.workspace.program.Defines v :=
  h.workspace.defines sane.workspace known

/-! ### Taking ids and making instructions -/

theorem Sound.reorder {pending more : List Id} (h : j.Sound pending) (same : List.Perm pending more) :
    j.Sound more where
  workspace := ⟨h.workspace.linked.reorder same, h.workspace.numbered, h.workspace.types, h.workspace.constants⟩
  variableId := h.variableId
  pointerTypeId := h.pointerTypeId

theorem Sound.give_up (more : List Id) {pending : List Id} (h : j.Sound (more ++ pending)) : j.Sound pending where
  workspace := h.workspace.give_up more
  variableId := h.variableId
  pointerTypeId := h.pointerTypeId

/-- A taken id goes to the instruction that has it as its result. -/
theorem Sound.own (i : Instruction) {pending : List Id} (h : j.Sound (i.resultId :: pending)) :
    j.Sound (i.ownIds ++ pending) := by
  unfold Instruction.ownIds
  split
  · exact h
  · exact h.give_up [_]

theorem keeps_takeId (sane : j.Sane good) :
    (provisions good).Keeps (liftM Program.takeId : Provision Id) j fun id j' =>
      (good → id ≠ 0) ∧ (good → ∀ pending, j.Sound pending → j'.Sound (id :: pending)) := by
  refine Change.After.within (Workspace.after_takeId (fun full => ⟨.refl j, fun _ => full⟩) fun free => ?_)
  have move : j.Advances good { j with workspace := { j.workspace with program := j.workspace.program.nextBound } } :=
    advances_workspace (Workspace.advances_nextBound free)
  refine ⟨move, fun assumed => ?_, fun assumed pending sound => ?_⟩
  · obtain ⟨pending, sound⟩ := sane assumed
    exact Int.ne_of_gt sound.workspace.linked.positive
  · have moved := move.sound assumed pending sound
    exact ⟨sound.workspace.nextBound free, moved.variableId, moved.pointerTypeId⟩

theorem keeps_newInst (i : Instruction) :
    (provisions good).Keeps (liftM (Program.newInst i) : Provision InstRef) j fun r j' =>
      r = ⟨j.workspace.program.instructions.size⟩ ∧ j'.workspace.program = j.workspace.program.made i :=
  Change.After.within (Workspace.after_newInst ⟨advances_workspace (Workspace.advances_made i).1, rfl, rfl⟩)

/-- Instructions are made under new names, and none that was there is touched. -/
theorem keeps_newInsts (insts : List Instruction) {j : Job} :
    (provisions good).Keeps (insts.mapM fun i => (liftM (Program.newInst i) : Provision InstRef)) j fun refs j' =>
      refs.map j'.workspace.program.inst = insts ∧
        (∀ r ∈ refs, j.workspace.program.instructions.size ≤ r.index ∧ j'.workspace.program.Holds r) ∧
        refs.Nodup ∧
        ∀ r, j.workspace.program.Holds r → j'.workspace.program.inst r = j.workspace.program.inst r := by
  induction insts generalizing j with
  | nil => exact Keeps.pure ⟨rfl, nofun, .nil, fun _ _ => rfl⟩
  | cons i rest ih =>
    rw [List.mapM_cons]
    apply (keeps_newInst i).bind
    intro r j₁ _ ⟨name, program⟩
    apply ih.bind
    intro refs j₂ move₂ ⟨insts, new, distinct, same⟩
    -- The new name is the size before, so it is none of the older ones and none of the later ones.
    subst name
    have size : j₁.workspace.program.instructions.size = j.workspace.program.instructions.size + 1 := by
      rw [program, Program.size_made]
    have held : j₁.workspace.program.Holds ⟨j.workspace.program.instructions.size⟩ :=
      Nat.lt_of_lt_of_eq (Nat.lt_succ_self _) size.symm
    refine Keeps.pure ⟨?_, ?_, ?_, ?_⟩
    · rw [List.map_cons, insts, same _ held, program, Program.inst_made]
    · intro s member
      rcases List.mem_cons.mp member with rfl | member
      · exact ⟨Nat.le_refl _, move₂.workspace.program.holds held⟩
      · have := new s member
        exact ⟨by omega, this.2⟩
    · refine List.nodup_cons.mpr ⟨fun again => ?_, distinct⟩
      exact Nat.not_succ_le_self _ (Nat.le_trans (Nat.le_of_eq size.symm) (new _ again).1)
    · intro s old
      have old₁ : j₁.workspace.program.Holds s := by
        unfold Program.Holds at *
        omega
      rw [same s old₁, program, Program.inst_made_of_lt i old]

/-- Recording instructions changes no program, and never fails. -/
theorem after_recordAll (refs : List InstRef) :
    Change.After (refs.forM fun r => (liftM (Workspace.record r) : Provision Unit)) j
      (fun _ j' => j.Advances good j' ∧ j'.workspace.program = j.workspace.program) fun _ _ => False := by
  refine Change.After.forM ⟨.refl j, rfl⟩ fun r _ j' held => ?_
  have look : Workspace.looks.moves j'.workspace { j'.workspace with
      facts.uses := j'.workspace.facts.uses.map fun u => u.record r (j'.workspace.program.inst r) } := ⟨rfl, rfl, rfl⟩
  exact Change.After.within (Change.After.modify
    ⟨held.1.trans (advances_workspace (Workspace.advances_of_looks look).1), held.2⟩)

theorem Sane.defines_constant (sane : j.Sane good) {id : Id} {value : Value}
    (known : good → j.workspace.program.HasConstant id value) :
    good → j.workspace.program.Defines (.int id) := by
  intro assumed
  obtain ⟨pending, sound⟩ := sane assumed
  exact (known assumed).defines sound.workspace.numbered

theorem keeps_uintConstantId (value width : Value) (sane : j.Sane good) :
    (provisions good).Keeps (liftM (Workspace.uintConstantId value width) : Provision Id) j fun id j' =>
      good → j'.workspace.program.HasConstant id value :=
  (Keeps.provisions_of_requests (keeps_lift (Workspace.keeps_uintConstantId value width sane.workspace))).mono
    fun _ _ _ held => held.2

/-! ### Increments -/

structure AddsOne (good : Prop) (atomic : Bool) (counterType pointer one : Id) (j j' : Job)
    (rest : List Instruction) : Prop where
  form : ∀ o : Increment.Operands, o.counterType = counterType → o.one = one → Increment.Form o atomic
    (Increment.address o.pointerType pointer o.buffer o.member o.index :: rest)
  pending : good → ∀ pending, j.Sound pending → j'.Sound (Increment.ownIds rest ++ pending)
  uses : good → ∀ i ∈ rest, ∀ v ∈ i.usedIds, j'.workspace.program.Defines v ∨ v = .int pointer ∨
    ∃ id ∈ Increment.ownIds rest, v = .int id

section
variable {counterType pointer one : Id} (sane : j.Sane good)
  (typeKnown : good → j.workspace.program.Defines (.int counterType))
  (oneKnown : good → j.workspace.program.Defines (.int one))
include sane typeKnown oneKnown

theorem keeps_addOne_atomic : (provisions good).Keeps (addOne true counterType pointer one) j fun rest j' =>
    AddsOne good true counterType pointer one j j' rest := by
  unfold addOne
  apply (keeps_uintConstantId _ _ sane).bind
  intro scope j₁ move₁ scopeKnown
  have sane₁ := move₁.sane sane
  apply (keeps_uintConstantId _ _ sane₁).bind
  intro semantics j₂ move₂ semanticsKnown
  have sane₂ := move₂.sane sane₁
  apply (keeps_takeId sane₂).bind
  intro result j₃ move₃ ⟨_, taken⟩
  have typeKnown₃ := ((move₁.trans move₂).trans move₃).defines sane typeKnown
  have oneKnown₃ := ((move₁.trans move₂).trans move₃).defines sane oneKnown
  have scopeKnown₃ := (move₂.trans move₃).defines sane₁ (sane₁.defines_constant scopeKnown)
  have semanticsKnown₃ := move₃.defines sane₂ (sane₂.defines_constant semanticsKnown)
  let i := Increment.atomicAdd counterType result pointer scope semantics one
  apply Keeps.pure
  constructor
  · rintro o rfl rfl
    exact .atomic pointer result scope semantics
  · intro assumed pending sound
    -- The id was taken last and goes to the atomic instruction, the only one.
    have taken := taken assumed _ (move₂.sound assumed _ (move₁.sound assumed _ sound))
    have own : Increment.ownIds [i] = i.ownIds := List.append_nil _
    rw [own]
    exact taken.own i
  · intro assumed i' member v used
    obtain rfl := List.mem_singleton.mp member
    rcases Increment.mem_usedIds_atomicAdd used with rfl | rfl | rfl | rfl | rfl
    · exact .inl (typeKnown₃ assumed)
    · exact .inr (.inl rfl)
    · exact .inl (scopeKnown₃ assumed)
    · exact .inl (semanticsKnown₃ assumed)
    · exact .inl (oneKnown₃ assumed)

theorem keeps_addOne_plain : (provisions good).Keeps (addOne false counterType pointer one) j fun rest j' =>
    AddsOne good false counterType pointer one j j' rest := by
  unfold addOne
  apply (keeps_takeId sane).bind
  intro value j₁ move₁ ⟨value_ne, taken₁⟩
  have sane₁ := move₁.sane sane
  apply (keeps_takeId sane₁).bind
  intro sum j₂ move₂ ⟨sum_ne, taken₂⟩
  have typeKnown₂ := (move₁.trans move₂).defines sane typeKnown
  have oneKnown₂ := (move₁.trans move₂).defines sane oneKnown
  let load := Increment.load counterType value pointer
  let add := Increment.add counterType sum value one
  apply Keeps.pure
  constructor
  · rintro o rfl rfl
    exact .plain pointer value sum
  · intro assumed pending sound
    -- The sum was taken last, so its id is the first of the pending ones.
    have both := taken₂ assumed _ (taken₁ assumed _ sound)
    have first := (both.own add).reorder List.perm_middle
    have second := (first.own load).reorder (List.perm_append_comm_assoc ..)
    have own : Increment.ownIds (Increment.loadAddStore counterType value sum pointer one) =
        load.ownIds ++ add.ownIds := congrArg _ (List.append_nil _)
    rw [own, List.append_assoc]
    exact second.reorder (List.perm_append_comm_assoc ..)
  · intro assumed i' member v used
    rcases Increment.mem_usedIds_loadAddStore member used with rfl | rfl | rfl | rfl | rfl
    · exact .inl (typeKnown₂ assumed)
    · exact .inr (.inl rfl)
    · exact .inl (oneKnown₂ assumed)
    · exact .inr (.inr ⟨value, Increment.mem_ownIds (List.mem_cons_self ..) rfl (value_ne assumed), rfl⟩)
    · have member : add ∈ Increment.loadAddStore counterType value sum pointer one := by
        simp [Increment.loadAddStore_eq, add]
      exact .inr (.inr ⟨sum, Increment.mem_ownIds member rfl (sum_ne assumed), rfl⟩)

theorem keeps_addOne (atomic : Bool) : (provisions good).Keeps (addOne atomic counterType pointer one) j
    fun rest j' => AddsOne good atomic counterType pointer one j j' rest := by
  cases atomic with
  | true => exact keeps_addOne_atomic sane typeKnown oneKnown
  | false => exact keeps_addOne_plain sane typeKnown oneKnown

end

/-- What an increment of a counter leaves behind before it is put into a block. -/
structure Made (good : Prop) (atomic : Bool) (traceIndex : Int) (j j' : Job) (refs : List InstRef)
    (o : Increment.Operands) : Prop where
  form : Increment.Form o atomic (refs.map j'.workspace.program.inst)
  new : ∀ r ∈ refs, j.workspace.program.instructions.size ≤ r.index ∧ j'.workspace.program.Holds r
  provides : good → j'.Provides traceIndex o
  pending : good → ∀ pending, j.Sound pending → j'.Sound (j'.workspace.program.idsOf refs ++ pending)
  uses : good → Increment.Closed j'.workspace.program (refs.map j'.workspace.program.inst)

theorem Made.after_move {atomic : Bool} {traceIndex : Int} {j₁ j' : Job} {refs : List InstRef}
    {o : Increment.Operands} (h : Made good atomic traceIndex j₁ j' refs o) (move : j.Advances good j₁) :
    Made good atomic traceIndex j j' refs o where
  form := h.form
  new r member := ⟨Nat.le_trans move.workspace.program.size_le (h.new r member).1, (h.new r member).2⟩
  provides := h.provides
  pending assumed pending sound := h.pending assumed pending (move.sound assumed pending sound)
  uses := h.uses

/-- The instructions of an increment, once all that it refers to is declared. -/
theorem keeps_assemble (atomic : Bool) (traceIndex : Int) (o : Increment.Operands) (sane : j.Sane good)
    (provides : good → j.Provides traceIndex o)
    (pointerKnown : good → j.workspace.program.Defines (.int o.pointerType))
    (typeKnown : good → j.workspace.program.Defines (.int o.counterType)) :
    (provisions good).Keeps (assemble atomic o) j fun refs j' => Made good atomic traceIndex j j' refs o := by
  unfold assemble
  apply (keeps_takeId sane).bind
  intro pointer j₁ move₁ ⟨pointer_ne, taken⟩
  have sane₁ := move₁.sane sane
  have provides₁ := move₁.provides sane provides
  have typeKnown₁ := move₁.defines sane typeKnown
  have oneKnown₁ := sane₁.defines_constant fun assumed => (provides₁ assumed).one
  apply (keeps_addOne sane₁ typeKnown₁ oneKnown₁ atomic).bind
  intro rest j₂ move₂ added
  have sane₂ := move₂.sane sane₁
  let address := Increment.address o.pointerType pointer o.buffer o.member o.index
  apply (keeps_newInsts (address :: rest)).bind
  intro refs j₃ move₃ ⟨insts, new, _⟩
  have recorded : (provisions good).Keeps (refs.forM fun r => (liftM (Workspace.record r) : Provision Unit)) j₃
      fun _ j' => j'.workspace.program = j₃.workspace.program :=
    Change.After.mono (after_recordAll refs) (fun _ _ held => held) fun _ _ => False.elim
  apply recorded.bind
  intro _ j₄ move₄ program
  have move := ((move₁.trans move₂).trans move₃).trans move₄
  have last := move₃.trans move₄
  have provides₄ := move.provides sane provides
  have ids : j₄.workspace.program.idsOf refs = address.ownIds ++ Increment.ownIds rest := by
    have mapped : j₄.workspace.program.idsOf refs = Increment.ownIds (refs.map j₄.workspace.program.inst) :=
      (List.flatMap_map ..).symm
    rw [mapped, program, insts]
    rfl
  have sane₄ := move.sane sane
  rw [← program] at insts new
  refine Keeps.pure ⟨?_, ?_, provides₄, ?_, ?_⟩
  · rw [insts]
    exact added.form o rfl rfl
  · intro r member
    have older := (move₁.trans move₂).workspace.program.size_le
    exact ⟨Nat.le_trans older (new r member).1, (new r member).2⟩
  · intro assumed pending sound
    -- The id of the address was taken first, so it is pending while the others are.
    have taken := added.pending assumed _ (taken assumed pending sound)
    have own := (taken.reorder List.perm_middle).own address
    have moved := last.sound assumed _ own
    rw [ids, List.append_assoc]
    exact moved
  · intro assumed
    have constant {id : Id} {value : Value} (known : j₄.workspace.program.HasConstant id value) :
        j₄.workspace.program.Defines (.int id) := sane₄.defines_constant (fun _ => known) assumed
    have declared := provides₄ assumed
    rw [insts]
    apply Increment.closed_of_address (move.defines sane pointerKnown assumed)
    · exact declared.buffer.2.2.defines declared.buffer.1
    · exact constant declared.member
    · exact constant declared.index
    · exact pointer_ne assumed
    · intro i member v used
      rcases added.uses assumed i member v used with known | same
      · exact .inl (last.defines sane₂ (fun _ => known) assumed)
      · exact .inr same

/-- What an increment refers to is declared step by step, and is still declared when it is put together. -/
theorem keeps_fill (atomic : Bool) (traceIndex : Int) {buffer : Id} (sane : j.Sane good)
    (bufferKnown : good → j.HasVariable buffer) :
    (provisions good).Keeps (fill atomic traceIndex buffer) j fun refs j' =>
      ∃ o, Made good atomic traceIndex j j' refs o := by
  unfold fill
  apply (keeps_pointerTypeId sane).bind
  intro pointerType j₁ move₁ pointerKnown
  have sane₁ := move₁.sane sane
  apply (Keeps.provisions_of_requests (keeps_counterTypeId sane₁)).bind
  intro counterType j₂ move₂ typeKnown
  have sane₂ := move₂.sane sane₁
  apply (keeps_uintConstantId _ _ sane₂).bind
  intro member j₃ move₃ memberKnown
  have sane₃ := move₃.sane sane₂
  apply (keeps_uintConstantId _ _ sane₃).bind
  intro index j₄ move₄ indexKnown
  have sane₄ := move₄.sane sane₃
  apply Keeps.bind_get
  apply (keeps_uintConstantId _ _ sane₄).bind
  intro one j₅ move₅ oneKnown
  have sane₅ := move₅.sane sane₄
  -- What was declared on the way is still declared when all is.
  have from₃ := move₄.trans move₅
  have from₂ := move₃.trans from₃
  have from₁ := move₂.trans from₂
  have whole := move₁.trans from₁
  let o : Increment.Operands := { pointerType, counterType, buffer, member, index, one }
  have provides : good → j₅.Provides traceIndex o := fun assumed =>
    { buffer := whole.hasVariable sane bufferKnown assumed
      member := from₃.workspace.hasConstant sane₃.workspace memberKnown assumed
      index := move₅.workspace.hasConstant sane₄.workspace indexKnown assumed
      one := oneKnown assumed }
  have pointerKnown₅ := from₁.defines sane₁ pointerKnown
  have typeKnown₅ := from₂.defines sane₂ fun assumed => (typeKnown assumed).1
  have assembled := keeps_assemble atomic traceIndex o sane₅ provides pointerKnown₅ typeKnown₅
  exact assembled.mono fun refs j' _ made => ⟨o, made.after_move whole⟩

theorem keeps_increment (atomic : Bool) (traceIndex : Int) (sane : j.Sane good) :
    (provisions good).Keeps (increment atomic traceIndex) j fun refs j' =>
      ∃ o, Made good atomic traceIndex j j' refs o := by
  rw [increment_eq]
  apply (Keeps.provisions_of_requests (keeps_lift (Workspace.keeps_needConstants sane.workspace))).discard.seq
  intro _ j₀ move₀
  have sane₀ := move₀.sane sane
  apply (keeps_bufferId sane₀).bind
  intro buffer j₁ move₁ bufferKnown
  refine (keeps_fill atomic traceIndex (move₁.sane sane₀) bufferKnown).mono fun refs j' _ made => ?_
  obtain ⟨o, made⟩ := made
  exact ⟨o, made.after_move (move₀.trans move₁)⟩

end Job

end BlockTally
