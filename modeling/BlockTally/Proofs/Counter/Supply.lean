import BlockTally.Proofs.Counter.Increment
import BlockTally.Proofs.Workspace.Serving

/-! The supply of what an increment needs.

A job that is supplied keeps in mind the variable and the pointer type that it provided, and what they stand for. So
all that an increment refers to is of the type that it should be of. The supply ends only when the ids run out; by then
fewer blocks were counted than there are ids, so their numbers are in the range of the counters' indices.
-/

set_option autoImplicit false

namespace BlockTally

/-! ### The types of a buffer -/

namespace CounterBuffer

variable (b : CounterBuffer)

theorem settled_singleton {d : Decoration} (integers : ∀ v ∈ d, ∃ number : Int, v = .int number) :
    Decoration.Settled [d] :=
  ⟨rfl, List.pairwise_singleton _ d, List.forall_mem_singleton.mpr integers⟩

theorem declarable_uint (width : Int) : (Ty.uint width).Declarable :=
  ⟨⟨_, rfl⟩, rfl⟩

theorem declarable_arrayType : b.arrayType.Declarable := by
  refine ⟨True.intro, declarable_uint _, settled_singleton (by simp), ?_⟩
  exact List.forall_mem_singleton.mpr (Decoration.numbered_cons _ _)

theorem declarable_bufferType : b.bufferType.Declarable := by
  refine ⟨⟨b.declarable_arrayType, True.intro⟩, ⟨settled_singleton (by simp), ?_⟩, settled_singleton (by simp), ?_⟩
  · exact List.forall_mem_singleton.mpr (Decoration.numbered_cons _ _)
  · exact List.forall_mem_singleton.mpr (Decoration.numbered_cons _ _)

def variableType : Ty :=
  .pointer b.bufferType (.int StorageClass.storageBuffer)

def addressType : Ty :=
  .pointer b.counterType (.int StorageClass.storageBuffer)

/-- All types of a buffer depend on the width of the counters only. -/
theorem bufferType_congr {b b' : CounterBuffer} (wide : b.wide = b'.wide) : b.bufferType = b'.bufferType := by
  simp only [bufferType, arrayType, stride, counterType, width, wide]


theorem types_congr {b b' : CounterBuffer} (wide : b.wide = b'.wide) :
    b.counterType = b'.counterType ∧ b.variableType = b'.variableType ∧ b.addressType = b'.addressType := by
  have counter : b.counterType = b'.counterType := by simp only [counterType, width, wide]
  exact ⟨counter, by simp only [variableType, bufferType_congr wide], by simp only [addressType, counter]⟩

end CounterBuffer

def Program.FixesVariable (p : Program) (known : Value → Option Ty) (id : Id) (ty : Ty) : Prop :=
  ∃ i, p.Fixes i ∧ i.opcode = .var ∧ i.resultId = id ∧ Ty.KnownAs known i.typeId ty

theorem Program.FixesVariable.later {p q : Program} {known known' : Value → Option Ty} {id : Id} {ty : Ty}
    (h : p.FixesVariable known id ty) (grows : p.Grows q)
    (more : ∀ v component, known v = some component → known' v = some component) : q.FixesVariable known' id ty := by
  obtain ⟨i, fixed, opcode, result, ty', found, same⟩ := h
  exact ⟨i, fixed.of_grows grows, opcode, result, ty', more _ _ found, same⟩

@[simp] theorem Program.fixesVariable_inserted {p : Program} {b : BlockRef} {gap : Nat} {refs : List InstRef}
    {known : Value → Option Ty} {id : Id} {ty : Ty} :
    (p.inserted b gap refs).FixesVariable known id ty ↔ p.FixesVariable known id ty := by
  simp only [FixesVariable, fixes_inserted]

namespace Job

open Change

/-- The workspace is steady, and what was provided so far is what it should be. The limit is passed by the bound on ids;
there was still an id below the limit of ids when the variable was declared. -/
structure Supplied (shaped typed : Prop) (limit : Int) (t : TypeTable) (j : Job) : Prop where
  steady : j.workspace.Steady shaped typed t
  limit_le : limit ≤ j.workspace.program.module.idBound
  taken : j.buffer.variableId ≠ 0 → limit < maxIdBound
  variableId : typed → j.buffer.variableId ≠ 0 →
    j.workspace.program.FixesVariable t.type? j.buffer.variableId j.buffer.variableType
  pointerTypeId : j.buffer.pointerTypeId ≠ 0 → Ty.KnownAs t.type? j.buffer.pointerTypeId j.buffer.addressType

structure Supplies (shaped typed : Prop) (limit : Int) (t : TypeTable) (j : Job) (t' : TypeTable) (j' : Job) :
    Prop where
  supplied : j'.Supplied shaped typed limit t'
  program : j.workspace.program.Extends j'.workspace.program
  types : ∀ v ty, t.type? v = some ty → t'.type? v = some ty
  introduces : typed → j.workspace.program.Introduces j'.workspace.program (Ty.Registered t'.type?)
  wide : j'.buffer.wide = j.buffer.wide

variable {shaped typed : Prop} {limit : Int} {t t' t'' : TypeTable} {j j' j'' : Job} {size : Nat} {α β : Type}

namespace Supplies

theorem refl (h : j.Supplied shaped typed limit t) : Supplies shaped typed limit t j t j :=
  ⟨h, .refl _, fun _ _ found => found, fun _ => .of_same rfl, rfl⟩

theorem trans (first : Supplies shaped typed limit t j t' j') (second : Supplies shaped typed limit t' j' t'' j'') :
    Supplies shaped typed limit t j t'' j'' where
  supplied := second.supplied
  program := first.program.trans second.program
  types v ty found := second.types v ty (first.types v ty found)
  introduces assumed := ((first.introduces assumed).mono fun _ known => known.later second.types).trans
    second.program.toGrows (second.introduces assumed)
  wide := second.wide.trans first.wide

theorem knownAs {id : Id} {ty : Ty} (h : Supplies shaped typed limit t j t' j') (known : Ty.KnownAs t.type? id ty) :
    Ty.KnownAs t'.type? id ty := by
  obtain ⟨ty', found, same⟩ := known
  exact ⟨ty', h.types _ _ found, same⟩

theorem fixesConstant {id : Id} {ty : Ty} {value : Value} (h : Supplies shaped typed limit t j t' j')
    (fixed : j.workspace.program.FixesConstant t.type? id ty value) :
    j'.workspace.program.FixesConstant t'.type? id ty value :=
  fixed.later h.program.toGrows h.types

theorem fixesVariable {id : Id} {ty : Ty} (h : Supplies shaped typed limit t j t' j')
    (fixed : j.workspace.program.FixesVariable t.type? id ty) : j'.workspace.program.FixesVariable t'.type? id ty :=
  fixed.later h.program.toGrows h.types

/-- A request in the workspace leaves the buffer alone. -/
theorem of_serves {w : Workspace} (h : j.Supplied shaped typed limit t)
    (serves : Workspace.Serves shaped typed size t j.workspace t' w) :
    Supplies shaped typed limit t j t' { j with workspace := w } := by
  refine ⟨⟨serves.steady, ?_, h.taken, fun assumed declared => ?_, fun known => ?_⟩, serves.program,
    serves.types.types, serves.introduces, rfl⟩
  · exact Int.le_trans h.limit_le serves.program.module.bound_le
  · exact (h.variableId assumed declared).later serves.program.toGrows serves.types.types
  · exact Workspace.KnownAs.later (h.pointerTypeId known) serves.types

theorem of_edited {w : Workspace} (h : j.Supplied shaped typed limit t)
    (edited : Workspace.Edited shaped j.workspace w) : Supplies shaped typed limit t j t { j with workspace := w } := by
  have serves : Workspace.Serves shaped typed 0 t j.workspace t w := .of_edited h.steady edited
  exact of_serves h serves

end Supplies

/-- A request in the workspace, made by a job that is supplied. -/
theorem safe_request {change : Action α} {post : α → TypeTable → Workspace → Prop}
    (h : j.Supplied shaped typed limit t)
    (served : Safe shaped change j.workspace fun a w => ∃ t' size,
      Workspace.Serves shaped typed size t j.workspace t' w ∧ post a t' w) :
    Safe shaped (liftM change : Provision α) j fun a j' => ∃ t',
      Supplies shaped typed limit t j t' j' ∧ j'.buffer = j.buffer ∧ post a t' j'.workspace := by
  refine After.within (served.mono fun a w held => ?_)
  obtain ⟨t', size, serves, answer⟩ := held
  exact ⟨t', .of_serves h serves, rfl, answer⟩

def Edits (shaped : Prop) (change : Provision α) (j : Job) (post : α → Job → Prop) : Prop :=
  (shaped → j.workspace.program.Complete) → Safe shaped change j fun a j' =>
    Workspace.Edited shaped j.workspace j'.workspace ∧ j'.buffer = j.buffer ∧ post a j'

namespace Edits

variable {post : α → Job → Prop}

theorem lift {change : Action α} (edits : Workspace.Edits shaped change j.workspace) :
    Edits shaped (liftM change : Provision α) j fun _ _ => True :=
  fun complete => After.within (Safe.mono (edits complete) fun _ _ edited => ⟨edited, rfl, True.intro⟩)

theorem takeId : Edits shaped (liftM Program.takeId : Provision Id) j fun _ _ => True :=
  fun _ => After.within (Workspace.after_takeId (fun _ => Error.spared_idsExhausted shaped)
    fun free => ⟨.nextBound free, rfl, True.intro⟩)

theorem pure {a : α} (h : post a j) : Edits shaped (Pure.pure a) j post :=
  fun _ => After.pure ⟨.refl _, rfl, h⟩

theorem bind {change : Provision α} {next : α → Provision β} {last : β → Job → Prop}
    (first : Edits shaped change j post) (rest : ∀ a j', post a j' → Edits shaped (next a) j' last) :
    Edits shaped (change >>= next) j last := by
  intro complete
  refine Safe.bind (first complete) fun a j' held => ?_
  obtain ⟨edited, buffer, answer⟩ := held
  refine (rest a j' answer fun assumed => edited.complete assumed (complete assumed)).mono fun _ _ later => ?_
  exact ⟨edited.trans later.1, later.2.1.trans buffer, later.2.2⟩

theorem discard {change : Provision α} (h : Edits shaped change j post) :
    Edits shaped (discard change) j fun _ _ => True :=
  h.bind fun _ _ _ => pure True.intro

/-- A job that is supplied stays so. -/
theorem safe {change : Provision α} (edits : Edits shaped change j post) (h : j.Supplied shaped typed limit t) :
    Safe shaped change j fun a j' => Supplies shaped typed limit t j t j' ∧ j'.buffer = j.buffer ∧ post a j' := by
  refine Safe.mono (edits h.steady.complete) fun _ j' held => ?_
  obtain ⟨edited, buffer, answer⟩ := held
  obtain ⟨w, b⟩ := j'
  obtain rfl : b = j.buffer := buffer
  exact ⟨.of_edited h edited, rfl, answer⟩

end Edits

theorem safe_typeId {ty : Ty} (h : j.Supplied shaped typed limit t) (declarable : ty.Declarable) :
    Safe shaped (liftM (Workspace.typeId ty) : Provision Id) j fun id j' => ∃ t',
      Supplies shaped typed limit t j t' j' ∧ j'.buffer = j.buffer ∧ id ≠ 0 ∧ Ty.KnownAs t'.type? id ty :=
  safe_request h ((Workspace.safe_typeId ty h.steady declarable).mono fun _ _ ⟨t', held⟩ => ⟨t', _, held⟩)

theorem safe_counterTypeId (h : j.Supplied shaped typed limit t) :
    Safe shaped counterTypeId j fun id j' => ∃ t', Supplies shaped typed limit t j t' j' ∧
      j'.buffer = j.buffer ∧ Ty.KnownAs t'.type? id j.buffer.counterType := by
  unfold counterTypeId
  apply After.bind_get
  refine (safe_typeId h (CounterBuffer.declarable_uint _)).mono fun id j' held => ?_
  obtain ⟨t', supplies, buffer, -, known⟩ := held
  exact ⟨t', supplies, buffer, known⟩

theorem safe_uintConstantId {width : Int} {value : Value} (h : j.Supplied shaped typed limit t)
    (range : shaped → Workspace.checkRange (.uint width) value = .ok ()) :
    Safe shaped (liftM (Workspace.uintConstantId value (.int width)) : Provision Id) j fun id j' => ∃ t',
      Supplies shaped typed limit t j t' j' ∧ j'.buffer = j.buffer ∧
        (typed → j'.workspace.program.FixesConstant t'.type? id (.uint width) value) :=
  safe_request h ((Workspace.safe_constantId h.steady (CounterBuffer.declarable_uint _) range).mono
    fun _ _ ⟨t', held⟩ => ⟨t', _, held⟩)

/-! ### The buffer -/

/-- After the variable is declared, it is named, bound and made known to the entry points. -/
theorem edits_presentVariable (wide : Bool) (bufferType id : Id) :
    Edits shaped (presentVariable wide bufferType id) j fun answer _ => answer = id := by
  have bound {j : Job} (d value : Int) : Edits shaped
      (liftM (Workspace.decorate (.int id) [.int d, .int value]) : Provision InstRef) j fun _ _ => True :=
    .lift (Workspace.edits_decorate _ (Decoration.numbered_cons _ _))
  have ending {j : Job} : Edits shaped (listVariable id) j fun answer _ => answer = id :=
    (Edits.lift (Workspace.edits_extendInterfaces id)).bind fun _ _ _ => .pure rfl
  refine (Edits.lift (Workspace.edits_addBufferNames _ _)).bind fun _ _ _ => ?_
  refine (bound _ _).discard.bind fun _ _ _ => (bound _ _).discard.bind fun _ _ _ => ?_
  refine (Edits.lift Workspace.edits_provideExtension).bind fun _ _ _ => ?_
  split
  · exact (Edits.lift Workspace.edits_provideWideCounters).bind fun _ _ _ => ending
  · exact ending

structure HasVariableOf (typed : Prop) (limit : Int) (b : CounterBuffer) (t : TypeTable) (id : Id) (p : Program) :
    Prop where
  nonzero : id ≠ 0
  taken : limit < maxIdBound
  fixed : typed → p.FixesVariable t.type? id b.variableType

theorem safe_declareVariable {bufferType : Id} (b : CounterBuffer) (wide : Bool)
    (h : j.Supplied shaped typed limit t) (known : Ty.KnownAs t.type? bufferType b.bufferType) :
    Safe shaped (declareVariable wide bufferType) j fun id j' => ∃ t', Supplies shaped typed limit t j t' j' ∧
      j'.buffer = j.buffer ∧ HasVariableOf typed limit b t' id j'.workspace.program := by
  refine Safe.bind (safe_request h (Workspace.safe_pointerId h.steady b.declarable_bufferType known))
    fun pointerType j₁ held => ?_
  obtain ⟨t₁, supplies₁, buffer₁, -, pointer⟩ := held
  have h₁ := supplies₁.supplied
  have declared : Safe shaped (Workspace.declareBufferVariable pointerType) j₁.workspace fun id w => ∃ t' size,
      Workspace.Serves shaped typed size t₁ j₁.workspace t' w ∧ HasVariableOf typed limit b t' id w.program := by
    refine (Workspace.safe_declareBufferVariable pointerType h₁.steady).mono fun id w held => ?_
    obtain ⟨serves, nonzero, free, fixed⟩ := held
    refine ⟨t₁, 0, serves, nonzero, Int.lt_of_le_of_lt h₁.limit_le free, fun assumed => ?_⟩
    obtain ⟨i, declared, opcode, result, type⟩ := fixed assumed
    exact ⟨i, declared, opcode, result, type ▸ pointer⟩
  refine Safe.bind (safe_request h₁ declared) fun id j₂ held => ?_
  obtain ⟨t₂, supplies₂, buffer₂, declared⟩ := held
  refine ((edits_presentVariable wide bufferType id).safe supplies₂.supplied).mono fun answer j₃ held => ?_
  obtain ⟨supplies₃, buffer₃, rfl⟩ := held
  refine ⟨t₂, (supplies₁.trans supplies₂).trans supplies₃, buffer₃.trans (buffer₂.trans buffer₁), ?_⟩
  exact ⟨declared.nonzero, declared.taken, fun assumed => supplies₃.fixesVariable (declared.fixed assumed)⟩

/-- The notes of a buffer have no part in the supply. -/
theorem Supplies.of_buffer {b : CounterBuffer} (h : j.Supplied shaped typed limit t) (wide : b.wide = j.buffer.wide)
    (variableId : b.variableId ≠ 0 → b.variableId = j.buffer.variableId ∨
      HasVariableOf typed limit j.buffer t b.variableId j.workspace.program)
    (pointerTypeId : b.pointerTypeId ≠ 0 → b.pointerTypeId = j.buffer.pointerTypeId ∨
      Ty.KnownAs t.type? b.pointerTypeId j.buffer.addressType) :
    Supplies shaped typed limit t j t { j with buffer := b } := by
  obtain ⟨-, ofVariable, address⟩ := CounterBuffer.types_congr wide
  refine ⟨⟨h.steady, h.limit_le, fun declared => ?_, fun assumed declared => ?_, fun known => ?_⟩, .refl _,
    fun _ _ found => found, fun _ => .of_same rfl, wide⟩
  -- The variable is the one that was noted before, or it was declared just now.
  · rcases variableId declared with same | new
    · exact h.taken (same ▸ declared)
    · exact new.taken
  · change j.workspace.program.FixesVariable t.type? b.variableId b.variableType
    rw [ofVariable]
    rcases variableId declared with same | new
    · rw [same]
      exact h.variableId assumed (same ▸ declared)
    · exact new.fixed assumed
  · change Ty.KnownAs t.type? b.pointerTypeId b.addressType
    rw [address]
    rcases pointerTypeId known with same | new
    · rw [same]
      exact h.pointerTypeId (same ▸ known)
    · exact new

theorem safe_declareBuffer (h : j.Supplied shaped typed limit t) :
    Safe shaped declareBuffer j fun id j' => ∃ t', Supplies shaped typed limit t j t' j' ∧
      HasVariableOf typed limit j.buffer t' id j'.workspace.program := by
  rw [declareBuffer_eq]
  apply After.bind_get
  refine Safe.bind (safe_typeId h j.buffer.declarable_bufferType) fun bufferType j₁ held => ?_
  obtain ⟨t₁, supplies₁, buffer₁, -, known₁⟩ := held
  refine Safe.bind ((Edits.lift Workspace.edits_needUses).safe supplies₁.supplied) fun uses j₂ held => ?_
  obtain ⟨supplies₂, buffer₂, -⟩ := held
  have both := supplies₁.trans supplies₂
  -- The note about an unused type changes nothing that the rest reads.
  have noted (j₃ : Job) (supplies₃ : Supplies shaped typed limit t₁ j₂ t₁ j₃) :=
    (safe_declareVariable j.buffer j.buffer.wide supplies₃.supplied known₁).mono fun id j' held =>
      show ∃ t', Supplies shaped typed limit t j t' j' ∧ HasVariableOf typed limit j.buffer t' id j'.workspace.program
      from by
        obtain ⟨t', supplies, -, declared⟩ := held
        exact ⟨t', (both.trans supplies₃).trans supplies, declared⟩
  by_cases unused : uses.usesOf (.int bufferType) = []
  · dsimp only
    rw [if_pos unused]
    refine After.bind (After.modify (noted _ (.of_buffer supplies₂.supplied rfl ?_ ?_)))
    · exact fun _ => .inl rfl
    · exact fun _ => .inl rfl
  · dsimp only
    rw [if_neg unused]
    exact noted j₂ (.refl supplies₂.supplied)

/-- The buffer variable is supplied, until the ids run out. -/
theorem safe_bufferId (h : j.Supplied shaped typed limit t) :
    Safe shaped bufferId j fun id j' => ∃ t', Supplies shaped typed limit t j t' j' ∧
      HasVariableOf typed limit j.buffer t' id j'.workspace.program := by
  unfold bufferId
  apply After.bind_get
  dsimp only
  by_cases declared : j.buffer.variableId ≠ 0
  · rw [if_pos declared]
    exact After.pure ⟨t, .refl h, declared, h.taken declared, fun assumed => h.variableId assumed declared⟩
  · rw [if_neg declared]
    refine Safe.bind (safe_declareBuffer h) fun id j₁ held => ?_
    obtain ⟨t₁, supplies₁, declared⟩ := held
    refine After.bind (After.modify (After.pure
      ⟨t₁, supplies₁.trans (.of_buffer supplies₁.supplied rfl ?_ ?_), declared⟩))
    · intro _
      obtain ⟨-, same, -⟩ := CounterBuffer.types_congr supplies₁.wide
      exact .inr ⟨declared.nonzero, declared.taken, fun assumed => same ▸ declared.fixed assumed⟩
    · exact fun _ => .inl rfl

theorem safe_pointerTypeId (h : j.Supplied shaped typed limit t) :
    Safe shaped pointerTypeId j fun id j' => ∃ t', Supplies shaped typed limit t j t' j' ∧
      Ty.KnownAs t'.type? id j.buffer.addressType := by
  unfold pointerTypeId
  apply After.bind_get
  dsimp only
  by_cases asked : j.buffer.pointerTypeId ≠ 0
  · rw [if_pos asked]
    exact After.pure ⟨t, .refl h, h.pointerTypeId asked⟩
  · rw [if_neg asked]
    refine Safe.bind (safe_counterTypeId h) fun counterType j₁ held => ?_
    obtain ⟨t₁, supplies₁, buffer₁, known⟩ := held
    have h₁ := supplies₁.supplied
    refine Safe.bind (safe_request h₁ (Workspace.safe_pointerId h₁.steady (CounterBuffer.declarable_uint _) known))
      fun id j₂ held => ?_
    obtain ⟨t₂, supplies₂, buffer₂, -, pointer⟩ := held
    have both := supplies₁.trans supplies₂
    refine After.bind (After.modify (After.pure ⟨t₂, both.trans (.of_buffer supplies₂.supplied rfl ?_ ?_), pointer⟩))
    · exact fun _ => .inl rfl
    · intro _
      rw [buffer₂]
      obtain ⟨-, -, same⟩ := CounterBuffer.types_congr supplies₁.wide
      exact .inr (same ▸ pointer)

end Job

/-! ### Increments -/

namespace Increment

variable {p q : Program} {known known' : Value → Option Ty} {b : CounterBuffer} {traceIndex : Int} {atomic : Bool}
  {insts : List Instruction}

structure Operands.Typed (o : Operands) (p : Program) (known : Value → Option Ty) (b : CounterBuffer)
    (traceIndex : Int) : Prop where
  pointerType : Ty.KnownAs known o.pointerType b.addressType
  counterType : Ty.KnownAs known o.counterType b.counterType
  buffer : p.FixesVariable known o.buffer b.variableType
  member : p.FixesConstant known o.member (.uint 32) (.int 0)
  index : p.FixesConstant known o.index (.uint 32) (.int traceIndex)
  one : p.FixesConstant known o.one b.counterType (.int 1)

inductive Adds (p : Program) (known : Value → Option Ty) (counterType pointer one : Id) :
    Bool → List Instruction → Prop where
  | atomic {result scope semantics : Id} (device : p.FixesConstant known scope (.uint 32) (.int Scope.device))
      (relaxed : p.FixesConstant known semantics (.uint 32) (.int MemorySemantics.relaxed)) :
      Adds p known counterType pointer one true [atomicAdd counterType result pointer scope semantics one]
  | plain (value sum : Id) :
      Adds p known counterType pointer one false (loadAddStore counterType value sum pointer one)

def Typed (p : Program) (known : Value → Option Ty) (b : CounterBuffer) (traceIndex : Int) (atomic : Bool)
    (insts : List Instruction) : Prop :=
  ∃ (o : Operands) (pointer : Id) (rest : List Instruction), o.Typed p known b traceIndex ∧
    Adds p known o.counterType pointer o.one atomic rest ∧
    insts = address o.pointerType pointer o.buffer o.member o.index :: rest

theorem Operands.Typed.later {o : Operands} (h : o.Typed p known b traceIndex) (grows : p.Grows q)
    (more : ∀ v ty, known v = some ty → known' v = some ty) : o.Typed q known' b traceIndex where
  pointerType := h.pointerType.imp fun _ held => ⟨more _ _ held.1, held.2⟩
  counterType := h.counterType.imp fun _ held => ⟨more _ _ held.1, held.2⟩
  buffer := h.buffer.later grows more
  member := h.member.later grows more
  index := h.index.later grows more
  one := h.one.later grows more

theorem Adds.later {counterType pointer one : Id} (h : Adds p known counterType pointer one atomic insts)
    (grows : p.Grows q) (more : ∀ v ty, known v = some ty → known' v = some ty) :
    Adds q known' counterType pointer one atomic insts := by
  cases h with
  | atomic device relaxed => exact .atomic (device.later grows more) (relaxed.later grows more)
  | plain value sum => exact .plain value sum

theorem Typed.later (h : Typed p known b traceIndex atomic insts) (grows : p.Grows q)
    (more : ∀ v ty, known v = some ty → known' v = some ty) : Typed q known' b traceIndex atomic insts := by
  obtain ⟨o, pointer, rest, typed, adds, same⟩ := h
  exact ⟨o, pointer, rest, typed.later grows more, adds.later grows more, same⟩

end Increment

theorem Workspace.checkRange_uint {number width : Nat} (inside : fits number width = true) :
    checkRange (.uint width) (.int number) = .ok () :=
  if_pos inside

/-- A number below the limit of ids can be an index. -/
theorem Workspace.fits_of_lt_maxIdBound {number : Nat} (small : (number : Int) < maxIdBound) :
    fits number 32 = true := by
  unfold maxIdBound at small
  unfold fits
  by_cases zero : number = 0
  · simp [zero]
  · have less : number.log2 < 32 := (Nat.log2_lt zero).mpr (by omega)
    simp [less]

namespace Job

open Change

variable {shaped typed : Prop} {limit : Int} {t : TypeTable} {j : Job}

theorem safe_addOne (atomic : Bool) (counterType pointer one : Id) (h : j.Supplied shaped typed limit t) :
    Safe shaped (addOne atomic counterType pointer one) j fun rest j' => ∃ t', Supplies shaped typed limit t j t' j' ∧
      (typed → Increment.Adds j'.workspace.program t'.type? counterType pointer one atomic rest) := by
  unfold addOne
  cases atomic with
  | true =>
    rw [if_pos rfl]
    refine Safe.bind (safe_uintConstantId h fun _ => Workspace.checkRange_uint (by decide)) fun scope j₁ held => ?_
    obtain ⟨t₁, supplies₁, -, device⟩ := held
    refine Safe.bind (safe_uintConstantId supplies₁.supplied fun _ => Workspace.checkRange_uint (by decide))
      fun semantics j₂ held => ?_
    obtain ⟨t₂, supplies₂, -, relaxed⟩ := held
    refine Safe.bind (Edits.takeId.safe supplies₂.supplied) fun result j₃ held => After.pure ?_
    obtain ⟨supplies₃, -⟩ := held
    -- The two constants are still what they were found to be when the id of the result is taken.
    have both := supplies₂.trans supplies₃
    refine ⟨t₂, supplies₁.trans both, fun assumed => ?_⟩
    exact .atomic (both.fixesConstant (device assumed)) (supplies₃.fixesConstant (relaxed assumed))
  | false =>
    rw [if_neg Bool.false_ne_true]
    refine Safe.bind (Edits.takeId.safe h) fun value j₁ held => ?_
    obtain ⟨supplies₁, -⟩ := held
    refine Safe.bind (Edits.takeId.safe supplies₁.supplied) fun sum j₂ held => After.pure ?_
    obtain ⟨supplies₂, -⟩ := held
    exact ⟨t, supplies₁.trans supplies₂, fun _ => .plain value sum⟩

/-- The making of instructions cannot fail. -/
theorem after_newInsts_edited (insts : List Instruction) :
    After (insts.mapM fun i => (liftM (Program.newInst i) : Provision InstRef)) j (fun _ j' =>
      Workspace.Edited shaped j.workspace j'.workspace ∧ j'.buffer = j.buffer) fun _ _ => False := by
  induction insts generalizing j with
  | nil => exact After.pure ⟨.refl _, rfl⟩
  | cons i rest ih =>
    rw [List.mapM_cons]
    refine After.bind (After.within (Workspace.after_newInst ?_))
    refine After.bind (After.mono ih (fun refs j' held => After.pure ?_) fun _ _ => False.elim)
    exact ⟨Workspace.Edited.trans (.made i) held.1, held.2⟩

theorem edits_recordAll (refs : List InstRef) :
    Edits shaped (refs.forM fun r => (liftM (Workspace.record r) : Provision Unit)) j
      fun _ j' => j'.workspace.program = j.workspace.program := by
  induction refs generalizing j with
  | nil => exact .pure rfl
  | cons r rest ih =>
    have recorded : Edits shaped (liftM (Workspace.record r) : Provision Unit) j
        fun _ j' => j'.workspace.program = j.workspace.program :=
      fun _ => After.within (After.modify ⟨.of_facts rfl rfl rfl, rfl, rfl⟩)
    refine recorded.bind fun _ j₁ same => ?_
    rw [← same]
    exact ih

/-- The instructions are made under new names. -/
theorem edits_makeInsts (insts : List Instruction) : Edits shaped (do
      let refs ← insts.mapM fun i => (liftM (Program.newInst i) : Provision InstRef)
      refs.forM fun r => (liftM (Workspace.record r) : Provision Unit)
      return refs) j fun refs j' => refs.map j'.workspace.program.inst = insts ∧
        ∀ r ∈ refs, j.workspace.program.instructions.size ≤ r.index ∧ j'.workspace.program.Holds r := by
  have made : Edits shaped (insts.mapM fun i => (liftM (Program.newInst i) : Provision InstRef)) j fun refs j' =>
      refs.map j'.workspace.program.inst = insts ∧
        ∀ r ∈ refs, j.workspace.program.instructions.size ≤ r.index ∧ j'.workspace.program.Holds r := by
    intro _
    have both := (@after_newInsts_edited shaped j insts).and (@keeps_newInsts False insts j)
    refine After.mono both (fun refs j' held => ?_) fun _ _ failed => failed.1.elim
    exact ⟨held.1.1, held.1.2, held.2.2.1, held.2.2.2.1⟩
  refine made.bind fun refs j₁ held => (edits_recordAll refs).bind fun _ j₂ same => .pure ?_
  rw [same]
  exact held

/-- An increment is put together from what there is. Its instructions are new, and they add to the counter. -/
theorem safe_assemble (atomic : Bool) (o : Increment.Operands) (h : j.Supplied shaped typed limit t) :
    Safe shaped (assemble atomic o) j fun refs j' => ∃ t', Supplies shaped typed limit t j t' j' ∧
      (∀ r ∈ refs, j.workspace.program.instructions.size ≤ r.index ∧ j'.workspace.program.Holds r) ∧
      (typed → ∃ pointer rest,
        Increment.Adds j'.workspace.program t'.type? o.counterType pointer o.one atomic rest ∧
        refs.map j'.workspace.program.inst =
          Increment.address o.pointerType pointer o.buffer o.member o.index :: rest) := by
  unfold assemble
  refine Safe.bind (Edits.takeId.safe h) fun pointer j₁ held => ?_
  obtain ⟨supplies₁, -⟩ := held
  refine Safe.bind (safe_addOne atomic o.counterType pointer o.one supplies₁.supplied) fun rest j₂ held => ?_
  obtain ⟨t₂, supplies₂, adds⟩ := held
  refine ((edits_makeInsts _).safe supplies₂.supplied).mono fun refs j₃ held => ?_
  obtain ⟨supplies₃, -, insts, new⟩ := held
  have before := supplies₁.trans supplies₂
  refine ⟨t₂, before.trans supplies₃, fun r member => ?_, fun assumed => ?_⟩
  · exact ⟨Nat.le_trans before.program.size_le (new r member).1, (new r member).2⟩
  · exact ⟨pointer, rest, (adds assumed).later supplies₃.program.toGrows supplies₃.types, insts⟩

/-- An increment of a counter of the given buffer, once the variable of the buffer is there. -/
theorem safe_fill {b : CounterBuffer} {buffer : Id} (atomic : Bool) (traceIndex : Nat)
    (h : j.Supplied shaped typed limit t) (wide : j.buffer.wide = b.wide)
    (declared : HasVariableOf typed limit b t buffer j.workspace.program)
    (below : shaped → (traceIndex : Int) < limit) :
    Safe shaped (fill atomic traceIndex buffer) j fun refs j' => ∃ t', Supplies shaped typed limit t j t' j' ∧
      (∀ r ∈ refs, j.workspace.program.instructions.size ≤ r.index ∧ j'.workspace.program.Holds r) ∧
      (typed → Increment.Typed j'.workspace.program t'.type? b traceIndex atomic
        (refs.map j'.workspace.program.inst)) := by
  -- There was an id left for the variable, so there are fewer blocks before this one than ids.
  have small (assumed : shaped) : (traceIndex : Int) < maxIdBound := Int.lt_trans (below assumed) declared.taken
  have inRange (b : CounterBuffer) : Workspace.checkRange (.uint b.width) (.int (1 : Nat)) = .ok () := by
    cases wide : b.wide <;> simp only [CounterBuffer.width, wide] <;> exact Workspace.checkRange_uint (by decide)
  unfold fill
  refine Safe.bind (safe_pointerTypeId h) fun pointerType j₁ held => ?_
  obtain ⟨t₁, supplies₁, pointerKnown⟩ := held
  refine Safe.bind (safe_counterTypeId supplies₁.supplied) fun counterType j₂ held => ?_
  obtain ⟨t₂, supplies₂, -, counterKnown⟩ := held
  refine Safe.bind (safe_uintConstantId supplies₂.supplied fun _ => Workspace.checkRange_uint (by decide))
    fun member j₃ held => ?_
  obtain ⟨t₃, supplies₃, -, memberFixed⟩ := held
  refine Safe.bind (safe_uintConstantId supplies₃.supplied fun assumed =>
    Workspace.checkRange_uint (Workspace.fits_of_lt_maxIdBound (small assumed))) fun index j₄ held => ?_
  obtain ⟨t₄, supplies₄, -, indexFixed⟩ := held
  apply After.bind_get
  refine Safe.bind (safe_uintConstantId supplies₄.supplied fun _ => inRange j₄.buffer) fun one j₅ held => ?_
  obtain ⟨t₅, supplies₅, -, oneFixed⟩ := held
  let o : Increment.Operands := { pointerType, counterType, buffer, member, index, one }
  refine (safe_assemble atomic o supplies₅.supplied).mono fun refs j₆ held => ?_
  obtain ⟨t₆, supplies₆, new, adds⟩ := held
  -- Whatever was found on the way is still what it was when the instructions are made.
  have from₄ := supplies₅.trans supplies₆
  have from₃ := supplies₄.trans from₄
  have from₂ := supplies₃.trans from₃
  have from₁ := supplies₂.trans from₂
  have upTo₄ := ((supplies₁.trans supplies₂).trans supplies₃).trans supplies₄
  have upTo₅ := upTo₄.trans supplies₅
  refine ⟨t₆, supplies₁.trans from₁, fun r member => ?_, fun assumed => ?_⟩
  · exact ⟨Nat.le_trans upTo₅.program.size_le (new r member).1, (new r member).2⟩
  obtain ⟨-, -, ofAddress⟩ := CounterBuffer.types_congr wide
  obtain ⟨ofCounter, -, -⟩ := CounterBuffer.types_congr (supplies₁.wide.trans wide)
  obtain ⟨ofOne, -, -⟩ := CounterBuffer.types_congr (upTo₄.wide.trans wide)
  obtain ⟨pointer, rest, adds, insts⟩ := adds assumed
  refine ⟨o, pointer, rest, ?_, adds, insts⟩
  exact
    { pointerType := ofAddress ▸ from₁.knownAs pointerKnown
      counterType := ofCounter ▸ from₂.knownAs counterKnown
      buffer := (supplies₁.trans from₁).fixesVariable (declared.fixed assumed)
      member := from₃.fixesConstant (memberFixed assumed)
      index := from₄.fixesConstant (indexFixed assumed)
      one := ofOne ▸ supplies₆.fixesConstant (oneFixed assumed) }

/-! ### Jobs at work -/

/-- The types that the job knows. Before it found any these are the ones that it will find. -/
def known (j : Job) : Value → Option Ty :=
  match j.workspace.facts.types, j.workspace.program.typeTable with
  | some t, _ => t.type?
  | none, .ok t => t.type?
  | none, .error _ => fun _ => none

theorem known_of_fresh (fresh : j.workspace.facts = {}) (read : j.workspace.program.typeTable = .ok t) :
    j.known = t.type? := by
  simp only [Job.known, fresh, read]

theorem Supplied.known (h : j.Supplied shaped typed limit t) : j.known = t.type? := by
  unfold Job.known
  rw [h.steady.types]

inductive Working (shaped typed : Prop) (limit : Int) (j : Job) : Prop where
  | fresh (facts : j.workspace.facts = {}) (buffer : j.buffer.variableId = 0 ∧ j.buffer.pointerTypeId = 0)
      (legible : j.workspace.program.Legible shaped typed) (limit_le : limit ≤ j.workspace.program.module.idBound)
  | supplied {t : TypeTable} (supplied : j.Supplied shaped typed limit t)

structure Increments (shaped typed : Prop) (limit : Int) (atomic : Bool) (traceIndex : Int) (j : Job)
    (refs : List InstRef) (j' : Job) : Prop where
  working : ∃ t, j'.Supplied shaped typed limit t
  read : j.workspace.facts.types ≠ none ∨ ∃ t, j.workspace.program.typeTable = .ok t
  program : j.workspace.program.Extends j'.workspace.program
  known : ∀ v ty, j.known v = some ty → j'.known v = some ty
  introduces : typed → j.workspace.program.Introduces j'.workspace.program (Ty.Registered j'.known)
  wide : j'.buffer.wide = j.buffer.wide
  new : ∀ r ∈ refs, j.workspace.program.instructions.size ≤ r.index ∧ j'.workspace.program.Holds r
  typed : typed → Increment.Typed j'.workspace.program j'.known j.buffer traceIndex atomic
    (refs.map j'.workspace.program.inst)

/-- An increment is made, until the ids run out. -/
theorem safe_increment (atomic : Bool) (traceIndex : Nat) (h : j.Working shaped typed limit)
    (below : shaped → (traceIndex : Int) < limit) :
    Safe shaped (increment atomic traceIndex) j (Increments shaped typed limit atomic traceIndex j) := by
  -- The tables are found first, and the job is supplied from then on.
  have found : Safe shaped (discard (liftM Workspace.needConstants : Provision ConstantTable)) j fun _ j₀ =>
      (j.workspace.facts.types ≠ none ∨ ∃ t, j.workspace.program.typeTable = .ok t) ∧
        j₀.workspace.program = j.workspace.program ∧ j₀.buffer = j.buffer ∧
        (∀ v ty, j.known v = some ty → j₀.known v = some ty) ∧ ∃ t, j₀.Supplied shaped typed limit t := by
    refine After.discard (After.within ?_)
    cases h with
    | fresh facts buffer legible limit_le =>
      refine (Workspace.safe_needConstants_fresh facts legible).mono fun _ w held => ?_
      obtain ⟨program, t, read, steady⟩ := held
      refine ⟨.inr ⟨t, read⟩, program, rfl, fun v ty before => ?_, t, steady, ?_, ?_, ?_, ?_⟩
      · rw [known_of_fresh facts read] at before
        simp only [Job.known, steady.types, before]
      · exact program ▸ limit_le
      · exact fun declared => absurd buffer.1 declared
      · exact fun _ declared => absurd buffer.1 declared
      · exact fun asked => absurd buffer.2 asked
    | supplied supplied =>
      obtain ⟨c, constants, -⟩ := supplied.steady.constants
      have types : j.workspace.facts.types ≠ none := fun none => nomatch supplied.steady.types.symm.trans none
      exact Workspace.after_needConstants_known constants ⟨.inl types, rfl, rfl, fun _ _ known => known, _, supplied⟩
  rw [increment_eq]
  refine Safe.bind found fun _ j₀ held => ?_
  obtain ⟨read, program, same, known₀, t, supplied⟩ := held
  refine Safe.bind (safe_bufferId supplied) fun buffer j₁ held => ?_
  obtain ⟨t₁, supplies₁, declared⟩ := held
  refine (safe_fill atomic traceIndex supplies₁.supplied supplies₁.wide declared below).mono fun refs j' held => ?_
  obtain ⟨t', supplies₂, new, typed⟩ := held
  have supplies := supplies₁.trans supplies₂
  rw [same] at typed
  have new (r : InstRef) (member : r ∈ refs) :
      j.workspace.program.instructions.size ≤ r.index ∧ j'.workspace.program.Holds r :=
    ⟨Nat.le_trans (program ▸ supplies₁.program.size_le) (new r member).1, (new r member).2⟩
  refine ⟨⟨t', supplies.supplied⟩, read, program ▸ supplies.program, fun v ty known => ?_, ?_, same ▸ supplies.wide,
    new, ?_⟩
  · rw [supplies.supplied.known]
    exact supplies.types v ty (supplied.known ▸ known₀ v ty known)
  · rw [supplies.supplied.known]
    exact program ▸ supplies.introduces
  · rw [supplies.supplied.known]
    exact typed

end Job

end BlockTally
