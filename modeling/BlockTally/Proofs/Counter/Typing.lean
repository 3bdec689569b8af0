import BlockTally.Proofs.Counter.Failure
import BlockTally.Proofs.Ty.Meaning

/-! The types of the instructions that count blocks.

In a run on a typed module the ids of an increment are declared as they should be: there is one type of counters and
one type of indices, and all pointers, variables and constants of increments are of these types.
-/

set_option autoImplicit false

namespace BlockTally

/-! ### Deciding whether unsigned integer types are distinct -/

def Ty.isUnsigned : Ty → Bool
  | .atom (.integer _ signed) _ => !signed
  | _ => false

theorem Ty.isUnsigned_iff {ty : Ty} : ty.isUnsigned = true ↔ ∃ width ds, ty = .atom (.integer width false) ds := by
  unfold isUnsigned
  split
  · simp
  next other =>
    refine iff_of_false Bool.false_ne_true ?_
    rintro ⟨width, ds, rfl⟩
    exact other _ _ _ rfl

/-- Only the ids in the table matter. -/
theorem Program.unsignedDistinct_iff {p : Program} {t : TypeTable} (read : p.typeTable = .ok t) :
    p.UnsignedDistinct ↔ ∀ v ∈ t.byId.keys, ∀ v' ∈ t.byId.keys, (t.type? v).any Ty.isUnsigned = true →
      t.type? v = t.type? v' → v = v' := by
  constructor
  · intro distinct v _ v' _ unsigned same
    obtain ⟨ty, known, unsigned⟩ := (Option.any_eq_true _ _).mp unsigned
    obtain ⟨width, ds, rfl⟩ := Ty.isUnsigned_iff.mp unsigned
    exact distinct t read v v' width ds known (same ▸ known)
  · intro distinct t' read' v v' width ds known known'
    obtain rfl := Except.ok.inj (read.symm.trans read')
    refine distinct v (Table.mem_keys_of_get? known) v' (Table.mem_keys_of_get? known') ?_ (known.trans known'.symm)
    exact (Option.any_eq_true _ _).mpr ⟨_, known, Ty.isUnsigned_iff.mpr ⟨width, ds, rfl⟩⟩

instance (p : Program) : Decidable p.UnsignedDistinct :=
  match read : p.typeTable with
  | .error _ => isTrue fun _ found => nomatch read.symm.trans found
  | .ok _ => decidable_of_iff _ (Program.unsignedDistinct_iff read).symm

/-! ### Declarations -/

structure Instruction.Has (i : Instruction) (opcode : Opcode) (type : Id) (ids : List Id) : Prop where
  opcode : i.opcode = opcode
  type : i.typeId = type
  values : i.operands.map Operand.value = ids.map Value.int

/-- The instruction is an unsigned integer type of the width. The flag for signed integers is 0 or an empty text. -/
structure Instruction.IsUnsigned (i : Instruction) (width : Int) : Prop where
  opcode : i.opcode = .typeInt
  width : i.value 0 = .ok (.int width)
  flag : i.value 1 = .ok (.int 0) ∨ i.value 1 = .ok (.str "")

theorem Instruction.IsUnsigned.of_states {known : Value → Option Ty} {i : Instruction} {width : Int}
    (h : Ty.States known i (.uint width)) : i.IsUnsigned width := by
  obtain ⟨opcode, value, flag, value', unset⟩ := h
  refine ⟨opcode, value, ?_⟩
  cases flag with
  | int number =>
    obtain rfl : number = 0 := by simpa [Value.isSet] using unset
    exact .inl value'
  | str text =>
    obtain rfl : text = "" := by simpa [Value.isSet] using unset
    exact .inr value'

/-- Such an instruction is read as an integer type. -/
theorem Instruction.IsUnsigned.describes {known : Value → Option Ty} {i : Instruction} {width : Int} {ty : Ty}
    (h : i.IsUnsigned width) (describes : Ty.Describes known i ty) :
    ∃ ds, ty = .atom (.integer (.int width) false) ds := by
  obtain ⟨seen, -, plain, read, own, members, ty', decorated, same⟩ := describes
  have integer : Ty.read? seen i = .ok (some (.uint width)) := by
    rcases h.flag with flag | flag <;> simp [Ty.read?, h.opcode, h.width, flag] <;> rfl
  obtain ⟨found, read', last⟩ := except_bind_ok_iff.mp read
  obtain rfl := Except.ok.inj (integer.symm.trans read')
  obtain rfl := Except.ok.inj last
  obtain ⟨ds, -, last⟩ := except_bind_ok_iff.mp decorated
  obtain rfl := Except.ok.inj last
  exact ⟨ds, Ty.eq_atom_of_key same.symm⟩

namespace Program

variable (p : Program)

def DeclaresUnsigned (id : Id) (width : Int) : Prop :=
  ∃ i, p.Declares i ∧ i.resultId = id ∧ i.IsUnsigned width

/-- The id is the only one of an unsigned integer type of the width in the second program, except for types of the
first one that are not plain. -/
def Singles (q : Program) (id : Id) (width : Int) : Prop :=
  ∃ t, p.typeTable = .ok t ∧ ∀ i, q.Declares i → i.IsUnsigned width →
    i.resultId = id ∨ p.Declares i ∧ t.type? (.int i.resultId) ≠ some (.uint width)

/-- The id is a type of pointers into storage buffers. The storage class is the number, or a numeral for it. -/
def DeclaresPointer (id pointee : Id) : Prop :=
  ∃ i, p.Declares i ∧ i.opcode = .typePointer ∧ i.resultId = id ∧
    (∃ storage, i.value 0 = .ok storage ∧ storage.number? = some StorageClass.storageBuffer) ∧
    i.value 1 = .ok (.int pointee)

def DeclaresArrayStruct (id element : Id) : Prop :=
  ∃ i member array, p.Declares i ∧ i.opcode = .typeStruct ∧ i.resultId = id ∧
    i.operands.map Operand.value = [.int member] ∧ p.Declares array ∧ array.opcode = .typeRuntimeArray ∧
    array.resultId = member ∧ array.value 0 = .ok (.int element)

def DeclaresBuffer (id element : Id) : Prop :=
  ∃ i pointee, p.Declares i ∧ i.opcode = .var ∧ i.resultId = id ∧ p.DeclaresPointer i.typeId pointee ∧
    p.DeclaresArrayStruct pointee element

def DeclaresConstant (id type : Id) (value : Int) : Prop :=
  ∃ i, p.Declares i ∧ i.opcode = .constant ∧ i.resultId = id ∧ i.typeId = type ∧
    i.operands.map Operand.value = [.int value]

end Program

namespace TypeTable.Reflects

variable {t : TypeTable} {p : Program} {ty : Ty} {id : Id} {v : Value}

theorem states (h : t.Reflects p) (known : t.type? v = some ty) :
    ∃ i ty', p.Declares i ∧ v = .int i.resultId ∧ Ty.States t.type? i ty' ∧ ty'.key = ty.key := by
  obtain ⟨i, fixed, result, describes⟩ := h.declared v ty known
  obtain ⟨ty', stated, same⟩ := describes.states
  exact ⟨i, ty', fixed.declares, result, stated, same⟩

/-- An unsigned integer type is known under one id only. -/
theorem eq_id {width : Int} (h : t.Reflects p) (known : t.type? v = some ty) (same : ty.key = (Ty.uint width).key) :
    v = .int (t.id (.uint width)) := by
  rw [Ty.eq_atom_of_key same] at known
  exact h.unsigned v _ _ known

theorem eq_id_of_knownAs {width : Int} (h : t.Reflects p) (known : Ty.KnownAs t.type? id (.uint width)) :
    id = t.id (.uint width) := by
  obtain ⟨ty, known, same⟩ := known
  exact Value.int.inj (h.eq_id known same)

/-- The types that were made are known, so there is only one of each width. -/
theorem singles {t' : TypeTable} {q : Program} (read : p.typeTable = .ok t') (h : t.Reflects q) (closed : p.Closed)
    (grows : p.Grows q) (plain : ∀ r ∈ p.declarations, r ∉ p.module.entryPoints)
    (introduces : p.Introduces q (Ty.Registered t.type?))
    (kept : ∀ v ty, t'.type? v = some ty → t.type? v = some ty) (width : Int) :
    p.Singles q (t.id (.uint width)) width := by
  refine ⟨t', read, ?_⟩
  rintro i ⟨r, member, rfl⟩ unsigned
  have type : (q.inst r).opcode.declaresType = true := unsigned.opcode ▸ rfl
  by_cases old : r ∈ p.module.typesValues
  · have held : p.Holds r := closed r (Program.mem_allInsts_of_list .typesValues old)
    have same : q.inst r = p.inst r := by
      obtain ⟨more, same⟩ := grows.extended held
      exact grows.inst held (plain r (List.mem_filter.mpr ⟨old, by rwa [same] at type⟩))
    rw [or_iff_not_imp_right, not_and_not_right]
    intro known
    exact Value.int.inj (h.eq_id (kept _ _ (known ⟨r, old, same.symm⟩)) rfl)
  · obtain ⟨-, ty, known, bare, describes⟩ := (introduces r member old).2 type
    obtain ⟨ds, rfl⟩ := unsigned.describes describes
    obtain rfl : ds = [] := bare
    exact .inl (Value.int.inj (h.eq_id known rfl))

theorem declaresUnsigned {width : Int} (h : t.Reflects p) (known : Ty.KnownAs t.type? id (.uint width)) :
    p.DeclaresUnsigned id width := by
  obtain ⟨ty, known, same⟩ := known
  obtain ⟨i, ty', declared, result, stated, same'⟩ := h.states known
  rw [Ty.eq_atom_of_key (same'.trans same)] at stated
  exact ⟨i, declared, (Value.int.inj result).symm, .of_states stated⟩

/-- A pointer type refers to a type that is known to be like the one that was asked for. -/
theorem pointee {component : Ty} (h : t.Reflects p)
    (known : Ty.KnownAs t.type? id (.pointer component (.int StorageClass.storageBuffer))) :
    ∃ pointee component', p.DeclaresPointer id pointee ∧ t.type? (.int pointee) = some component' ∧
      component'.key = component.key := by
  obtain ⟨ty, known, same⟩ := known
  obtain ⟨i, ty', declared, result, stated, same'⟩ := h.states known
  obtain ⟨storage, component', rfl, number, like⟩ := Ty.eq_pointer_of_key (same'.trans same)
  obtain ⟨opcode, value, v, value', refers⟩ := stated
  obtain ⟨j, fixed, rfl, -⟩ := h.declared v component' refers
  exact ⟨j.resultId, component', ⟨i, declared, opcode, (Value.int.inj result).symm, ⟨storage, value, number⟩, value'⟩,
    refers, like⟩

theorem declaresPointer {width : Int} (h : t.Reflects p)
    (known : Ty.KnownAs t.type? id (.pointer (.uint width) (.int StorageClass.storageBuffer))) :
    p.DeclaresPointer id (t.id (.uint width)) := by
  obtain ⟨pointee, component, declared, known, same⟩ := h.pointee known
  obtain rfl := Value.int.inj (h.eq_id known same)
  exact declared

theorem declaresArrayStruct {width : Int} {mds ds ds' : List Decoration} (h : t.Reflects p)
    (known : t.type? (.int id) = some ty)
    (same : ty.key = (Ty.struct [.wrap .runtimeArray (.uint width) ds'] mds ds).key) :
    p.DeclaresArrayStruct id (t.id (.uint width)) := by
  obtain ⟨i, ty', declared, result, stated, same'⟩ := h.states known
  obtain ⟨array, rfl, like⟩ := Ty.eq_struct_of_key (same'.trans same)
  obtain ⟨opcode, members⟩ := stated
  obtain ⟨operand, rest, refers, none, operands⟩ := List.forall₂_cons_right_iff.mp members
  rw [List.forall₂_nil_right_iff] at none
  subst none
  obtain ⟨j, array', declared', result', stated', same''⟩ := h.states refers
  obtain ⟨element, rfl, like'⟩ := Ty.eq_runtimeArray_of_key (same''.trans like)
  obtain ⟨opcode', v, value, refers'⟩ := stated'
  obtain rfl := h.eq_id refers' like'
  exact ⟨i, j.resultId, j, declared, opcode, (Value.int.inj result).symm, by rw [operands, ← result']; rfl, declared',
    opcode', rfl, value⟩

theorem declaresConstant {width value : Int} (h : t.Reflects p)
    (fixed : p.FixesConstant t.type? id (.uint width) (.int value)) :
    p.DeclaresConstant id (t.id (.uint width)) value := by
  obtain ⟨i, fixed, opcode, result, operands, known⟩ := fixed
  exact ⟨i, fixed.declares, opcode, result, h.eq_id_of_knownAs known, operands⟩

theorem declaresBuffer (b : CounterBuffer) (h : t.Reflects p) (fixed : p.FixesVariable t.type? id b.variableType) :
    p.DeclaresBuffer id (t.id b.counterType) := by
  obtain ⟨i, fixed, opcode, result, known⟩ := fixed
  obtain ⟨pointee, struct, pointer, known, same⟩ := h.pointee known
  exact ⟨i, pointee, fixed.declares, opcode, result, pointer, h.declaresArrayStruct known same⟩

end TypeTable.Reflects

/-! ### Increments -/

namespace Increment

variable {p : Program} {t : TypeTable} {b b' : CounterBuffer} {traceIndex : Int} {atomic : Bool}
  {insts : List Instruction}

inductive AddsTyped (p : Program) (counter index pointer one : Id) : Bool → List Instruction → Prop where
  | atomic {add : Instruction} {scope semantics : Id}
      (adds : add.Has .atomicIAdd counter [pointer, scope, semantics, one])
      (device : p.DeclaresConstant scope index Scope.device)
      (relaxed : p.DeclaresConstant semantics index MemorySemantics.relaxed) :
      AddsTyped p counter index pointer one true [add]
  | plain {load add store : Instruction} (loads : load.Has .load counter [pointer])
      (adds : add.Has .iAdd counter [load.resultId, one]) (stores : store.Has .store 0 [pointer, add.resultId]) :
      AddsTyped p counter index pointer one false [load, add, store]

/-- An increment that is well typed by ids, given those of the type of counters and of the type of indices. -/
inductive WellTyped (p : Program) (counter index : Id) (traceIndex : Int) (atomic : Bool) :
    List Instruction → Prop where
  | intro {address : Instruction} {rest : List Instruction} {buffer member element one : Id}
      (addresses : address.Has .accessChain address.typeId [buffer, member, element])
      (pointerType : p.DeclaresPointer address.typeId counter) (buffers : p.DeclaresBuffer buffer counter)
      (members : p.DeclaresConstant member index 0) (elements : p.DeclaresConstant element index traceIndex)
      (ones : p.DeclaresConstant one counter 1) (adds : AddsTyped p counter index address.resultId one atomic rest) :
      WellTyped p counter index traceIndex atomic (address :: rest)

theorem Adds.typed {counter pointer one : Id} (h : Adds p t.type? counter pointer one atomic insts)
    (reflects : t.Reflects p) : AddsTyped p counter (t.id (.uint 32)) pointer one atomic insts := by
  cases h with
  | atomic device relaxed =>
    exact .atomic ⟨rfl, rfl, rfl⟩ (reflects.declaresConstant device) (reflects.declaresConstant relaxed)
  | plain value sum => exact .plain ⟨rfl, rfl, rfl⟩ ⟨rfl, rfl, rfl⟩ ⟨rfl, rfl, rfl⟩

theorem Typed.wellTyped (h : Typed p t.type? b traceIndex atomic insts) (reflects : t.Reflects p) :
    WellTyped p (t.id b.counterType) (t.id (.uint 32)) traceIndex atomic insts := by
  obtain ⟨o, pointer, rest, typed, adds, rfl⟩ := h
  rw [reflects.eq_id_of_knownAs typed.counterType] at adds
  exact .intro ⟨rfl, rfl, rfl⟩ (reflects.declaresPointer typed.pointerType) (reflects.declaresBuffer b typed.buffer)
    (reflects.declaresConstant typed.member) (reflects.declaresConstant typed.index)
    (reflects.declaresConstant typed.one) (adds.typed reflects)

/-- The types of an increment are those of unsigned integers. -/
theorem Typed.declaresUnsigned (h : Typed p t.type? b traceIndex atomic insts) (reflects : t.Reflects p) :
    p.DeclaresUnsigned (t.id b.counterType) b.width ∧ p.DeclaresUnsigned (t.id (.uint 32)) 32 := by
  obtain ⟨o, -, -, typed, -⟩ := h
  obtain ⟨i, -, -, -, -, index⟩ := typed.index
  constructor
  · have counterType : o.counterType = t.id b.counterType := reflects.eq_id_of_knownAs typed.counterType
    rw [← counterType]
    exact reflects.declaresUnsigned typed.counterType
  · rw [← reflects.eq_id_of_knownAs index]
    exact reflects.declaresUnsigned index

/-- Only the width of the counters of a buffer matters. -/
theorem Typed.congr {known : Value → Option Ty} (h : Typed p known b traceIndex atomic insts)
    (wide : b.wide = b'.wide) : Typed p known b' traceIndex atomic insts := by
  obtain ⟨counter, var, address⟩ := CounterBuffer.types_congr wide
  obtain ⟨o, pointer, rest, typed, adds, same⟩ := h
  refine ⟨o, pointer, rest, ?_, adds, same⟩
  exact
    { pointerType := address ▸ typed.pointerType
      counterType := counter ▸ typed.counterType
      buffer := var ▸ typed.buffer
      member := typed.member
      index := typed.index
      one := counter ▸ typed.one }

/-- What is put into a block changes no declaration. -/
theorem Typed.inserted {known : Value → Option Ty} (h : Typed p known b traceIndex atomic insts) (c : BlockRef)
    (gap : Nat) (refs : List InstRef) : Typed (p.inserted c gap refs) known b traceIndex atomic insts := by
  obtain ⟨o, pointer, rest, typed, adds, same⟩ := h
  refine ⟨o, pointer, rest, ?_, ?_, same⟩
  · exact
      { pointerType := typed.pointerType
        counterType := typed.counterType
        buffer := Program.fixesVariable_inserted.mpr typed.buffer
        member := Program.fixesConstant_inserted.mpr typed.member
        index := Program.fixesConstant_inserted.mpr typed.index
        one := Program.fixesConstant_inserted.mpr typed.one }
  · cases adds with
    | atomic device relaxed =>
      exact .atomic (Program.fixesConstant_inserted.mpr device) (Program.fixesConstant_inserted.mpr relaxed)
    | plain value sum => exact .plain value sum

end Increment

/-! ### Runs -/

/-- A valid module is legible if its types and constants have ids. -/
theorem Program.WellFormed.legible {p : Program} (formed : p.WellFormed) (closed : p.Closed)
    (positive : 0 < p.module.idBound) (types : p.TypesNumbered) (constants : p.ConstantsNumbered)
    (unsigned : p.UnsignedDistinct) : p.Legible False True := by
  obtain ⟨distinct, below⟩ := formed.declarations
  refine ⟨positive, distinct, below, False.elim, False.elim, fun _ r entry => ?_, fun _ => types, fun _ => unsigned,
    fun _ r member declares => ?_⟩
  · exact closed r (mem_allInsts_of_list .entryPoints entry)
  · have result : (p.inst r).resultId ≠ 0 := declares.elim
      (fun type => types r (List.mem_filter.mpr ⟨member, type⟩)) fun constant => constants r member constant
    exact ⟨r, member, closed r (mem_allInsts_of_list .typesValues member),
      (formed.linked closed positive).not_entryPoint member result, rfl⟩

namespace Run

open Change

variable {σ : Type} {atomic wide : Bool} {p : Program} {labels : Labels} {done : List BlockRef} {r : Run σ}
  {b c : BlockRef} {traceIndex : Nat} {refs more : List InstRef} {j : Job} {t : TypeTable}

structure Incremented (p : Program) (atomic wide : Bool) (traceIndex : Nat) (b : BlockRef) (refs : List InstRef)
    (r : Run σ) : Prop where
  block : r.program.block b = p.instrumented b refs
  new : ∀ i ∈ refs, p.instructions.size ≤ i.index ∧ r.program.Holds i
  typed : Increment.Typed r.program r.job.known { wide } traceIndex atomic (refs.map r.program.inst)

/-- Declarations change no increment. -/
theorem Incremented.advance (h : r.Incremented p atomic wide traceIndex b refs) (closed : p.Closed)
    (grows : p.Grows r.program) (program : r.program.Extends j.workspace.program)
    (known : ∀ v ty, r.job.known v = some ty → j.known v = some ty) :
    ({ r with job := j } : Run σ).Incremented p atomic wide traceIndex b refs where
  block := (program.block b).trans h.block
  new i member := ⟨(h.new i member).1, program.holds (h.new i member).2⟩
  typed := by
    have same : refs.map j.workspace.program.inst = refs.map r.program.inst := List.map_congr_left fun i member =>
      program.inst (h.new i member).2 (grows.plain_of_new closed (h.new i member).1)
    change Increment.Typed j.workspace.program j.known _ _ _ (refs.map j.workspace.program.inst)
    rw [same]
    exact h.typed.later program.toGrows known

/-- What is put into a block tells the job of no type. -/
theorem known_counted {limit : Int} (supplied : j.Supplied False True limit t) :
    (r.counted b j refs).job.known = j.known :=
  (supplied.inserted b _ refs).known.trans supplied.known.symm

/-- What is put into a block leaves an increment typed. -/
theorem typed_counted {limit : Int} (supplied : j.Supplied False True limit t)
    (typed : Increment.Typed j.workspace.program j.known { wide } traceIndex atomic
      (refs.map j.workspace.program.inst)) :
    Increment.Typed (r.counted c j more).program (r.counted c j more).job.known { wide } traceIndex atomic
      (refs.map (r.counted c j more).program.inst) := by
  have same : refs.map (r.counted c j more).program.inst = refs.map j.workspace.program.inst :=
    List.map_congr_left fun i _ => Program.inst_inserted i
  rw [same, known_counted supplied]
  exact typed.inserted c _ more

/-- An insertion into another block. -/
theorem Incremented.inserted {limit : Int}
    (h : ({ r with job := j } : Run σ).Incremented p atomic wide traceIndex b refs)
    (supplied : j.Supplied False True limit t) (other : b ≠ c) :
    (r.counted c j more).Incremented p atomic wide traceIndex b refs where
  block := (Program.block_inserted_of_ne other).trans h.block
  new i member := ⟨(h.new i member).1, Program.holds_inserted.mpr (h.new i member).2⟩
  typed := typed_counted supplied h.typed

/-- The increment that was made for the next block is put into it. -/
theorem incremented_of_made (progress : r.Progress p.Ready atomic p labels done) (closed : p.Closed)
    (next : Next p labels done b) (width : r.job.buffer.wide = wide)
    (made : Job.Increments False True p.module.idBound atomic traceIndex r.job refs j) :
    (r.counted b j refs).Incremented p atomic wide traceIndex b refs := by
  obtain ⟨t, supplied⟩ := made.working
  refine ⟨?_, fun i among => ?_, typed_counted supplied ((made.typed True.intro).congr width)⟩
  · obtain ⟨f, formed⟩ := next.formed
    have unchanged : j.workspace.program.block b = p.block b :=
      (made.program.block b).trans (progress.others b next.fresh)
    have old : b.index < j.workspace.program.blocks.size := Program.index_lt_of_owner (unchanged ▸ formed.owner)
    change (j.workspace.program.inserted b (r.program.insertionPoint b) refs).block b = _
    rw [progress.insertionPoint closed next]
    exact Program.block_inserted_of_unchanged old unchanged
  · have new := made.new i among
    exact ⟨Nat.le_trans progress.grows.size_le new.1, Program.holds_inserted.mpr new.2⟩

/-- The account of a run on a typed program `p`, of which the types are known to begin with: the blocks that are done
have increments that are typed. -/
structure Typings (atomic wide : Bool) (p : Program) (known : Value → Option Ty) (labels : Labels)
    (done : List BlockRef) (r : Run σ) : Prop where
  progress : r.Progress p.Ready atomic p labels done
  underway : r.Underway False True p labels
  supplied : done ≠ [] → ∃ t, r.job.Supplied False True p.module.idBound t
  read : done = [] ∧ r.job.workspace = { program := p } ∨ ∃ t, p.typeTable = .ok t
  width : r.job.buffer.wide = wide
  known : ∀ v ty, known v = some ty → r.job.known v = some ty
  introduces : p.Introduces r.program (Ty.Registered r.job.known)
  incremented : ∀ b ∈ done, ∃ (traceIndex : Nat) (refs : List InstRef), labels.get? (p.blockId b) = some traceIndex ∧
    r.Incremented p atomic wide traceIndex b refs

variable {known : Value → Option Ty} {tour : Tour}

/-- The next block gets an increment that is typed. -/
theorem Typings.count (h : r.Typings atomic wide p known labels done) (closed : p.Closed)
    (next : Next p labels done b) :
    After (instrumentBlock atomic b) r (fun _ => Typings atomic wide p known labels (done ++ [b])) fun _ _ => True := by
  have held : p.Holds (p.block b).label := holds_of_listed closed next.listed (List.mem_cons_self ..)
  refine After.mono ((after_instrumentBlock h.progress closed next).and
    (safe_instrumentBlock h.underway held next.number False.elim)) ?_ fun _ _ _ => True.intro
  rintro changed r' ⟨⟨changed', progress⟩, ⟨unchanged, -⟩ | ⟨refs, j, made, rfl⟩⟩
  · cases changed'.symm.trans unchanged
  obtain ⟨t, supplied⟩ := made.working
  have after : (r.counted b j refs).job.known = j.known := known_counted supplied
  refine ⟨progress, h.underway.counts ⟨refs, j, made, rfl⟩, fun _ => ⟨t, supplied.inserted b _ refs⟩, ?_,
    made.wide.trans h.width, ?_, ?_, ?_⟩
  -- Before the first block is counted nothing has been found out, so its increment had the types read.
  · refine .inr (h.read.elim (fun ⟨_, same⟩ => ?_) id)
    have read := made.read
    rw [same] at read
    exact read.resolve_left fun found => found rfl
  · intro v ty found
    rw [after]
    exact made.known v ty (h.known v ty found)
  · rw [after]
    refine Program.Introduces.inserted (.trans ?_ made.program.toGrows (made.introduces True.intro)) b _ refs
    exact h.introduces.mono fun _ registered => registered.later made.known
  · intro c member
    rcases List.mem_append.mp member with before | here
    · obtain ⟨traceIndex, older, number, incremented⟩ := h.incremented c before
      have other : c ≠ b := by
        rintro rfl
        exact next.fresh before
      have advanced := incremented.advance closed h.progress.grows made.program made.known
      exact ⟨traceIndex, older, number, advanced.inserted supplied other⟩
    · obtain rfl := List.mem_singleton.mp here
      exact ⟨done.length, refs, next.number, incremented_of_made h.progress closed next h.width made⟩

/-- All blocks that are traced got increments that are typed with the two ids, and no other block has changed. There
is one type of counters and one of indices. -/
structure CountsTyped (settings : Settings) (p : Program) (counter index : Id) (r : Run σ) : Prop where
  counterType : r.program.DeclaresUnsigned counter (if settings.wide then 64 else 32)
  oneCounterType : p.Singles r.program counter (if settings.wide then 64 else 32)
  same : settings.wide = false → counter = index
  indexType : r.program.DeclaresUnsigned index 32
  oneIndexType : p.Singles r.program index 32
  traced : ∀ b, p.Traced b → ∃ (traceIndex : Nat) (refs : List InstRef),
    r.labels.get? (p.blockId b) = some traceIndex ∧ r.program.block b = p.instrumented b refs ∧
    Increment.WellTyped r.program counter index traceIndex settings.atomic (refs.map r.program.inst)
  untraced : ∀ b, ¬p.Traced b → r.program.block b = p.block b

theorem Typings.countsTyped {settings : Settings} (closed : p.Closed)
    (plain : ∀ r ∈ p.declarations, r ∉ p.module.entryPoints) (traces : p.Traces labels tour)
    (some : ∃ b, p.Traced b) (original : ∀ t, p.typeTable = .ok t → known = t.type?)
    (h : r.Typings settings.atomic settings.wide p known labels (p.tracedBlocks tour)) :
    ∃ counter index, ({ r with job.workspace.facts := {} } : Run σ).CountsTyped settings p counter index := by
  obtain ⟨first, traced⟩ := some
  have member : first ∈ p.tracedBlocks tour := traces.mem_iff.mpr traced
  obtain ⟨t, supplied⟩ := h.supplied (List.ne_nil_of_mem member)
  have reflects : t.Reflects r.program := supplied.steady.reflects True.intro
  -- The ids of the two types are those that the last table hands out; any increment shows that they are declared.
  obtain ⟨number, refs, -, incremented⟩ := h.incremented first member
  have typed := incremented.typed
  rw [supplied.known] at typed
  obtain ⟨counter, index⟩ := typed.declaresUnsigned reflects
  obtain ⟨t', read⟩ := h.read.resolve_left fun begins => List.ne_nil_of_mem member begins.1
  have kept (v : Value) (ty : Ty) (found : t'.type? v = .some ty) : t.type? v = .some ty := by
    rw [← supplied.known]
    exact h.known v ty (original t' read ▸ found)
  have introduces : p.Introduces r.program (Ty.Registered t.type?) := supplied.known ▸ h.introduces
  have singles := reflects.singles read closed h.progress.grows plain introduces kept
  refine ⟨_, _, counter, singles _, fun narrow => ?_, index, singles _, fun b traced => ?_, fun b untraced => ?_⟩
  · simp only [CounterBuffer.counterType, CounterBuffer.width, narrow]
    rfl
  · obtain ⟨number, refs, labeled, incremented⟩ := h.incremented b (traces.mem_iff.mpr traced)
    have typed := incremented.typed
    rw [supplied.known] at typed
    refine ⟨number, refs, ?_, incremented.block, typed.wellTyped reflects⟩
    exact h.progress.labeled ▸ labeled
  · exact h.progress.others b fun member => untraced (traces.mem_iff.mp member)

/-- In a run that changes a typed module all increments are typed. -/
theorem countsTyped_of_run {settings : Settings} {hooks : Hooks σ} (quiet : hooks.Quiet)
    (valid : r.program.validate = .ok ()) (closed : r.program.Closed) (types : r.program.TypesNumbered)
    (constants : r.program.ConstantsNumbered) (unsigned : r.program.UnsignedDistinct) {r' : Run σ}
    (ran : run settings hooks r = .ok .changed r') :
    ∃ counter index, r'.CountsTyped settings r.program counter index := by
  have formed := Program.validate_ok_iff.mp valid
  have outcome : After (run settings hooks) r (fun status r' => status = .changed →
      ∃ counter index, r'.CountsTyped settings r.program counter index) fun _ _ => True := by
    refine after_stages settings quiet (fun _ _ => True.intro) fun labels tour host traces => ?_
    by_cases none : tour.visited = []
    · unfold Tour.anyChange Tour.foldM
      rw [none, traces.whole]
      exact After.pure nofun
    have positive := (ready_of_visited formed constants traces none).2
    have legible := formed.legible closed positive types constants unsigned
    have plain : ∀ i ∈ r.program.declarations, i ∉ r.program.module.entryPoints := fun i member =>
      (formed.linked closed positive).not_entryPoint (List.mem_of_mem_filter member) (types i member)
    let start : Run σ := { prepare settings r with labels, host }
    have progress : start.Progress r.program.Ready settings.atomic r.program start.labels [] :=
      Progress.start settings r formed closed rfl rfl rfl
    have begins : start.Typings settings.atomic settings.wide r.program (prepare settings r).job.known labels [] :=
      { progress := progress
        underway := .start legible
        supplied := fun some => absurd rfl some
        read := .inl ⟨rfl, rfl⟩
        width := rfl
        known := fun _ _ found => found
        introduces := .of_same rfl
        incremented := nofun }
    refine After.mono (after_tour traces.whole (fun _ _ held => held.progress.grows.function) begins
      fun done b rest r₁ split held => held.count closed (next_of_traces formed traces split)) ?_
      fun _ _ _ => True.intro
    rintro changed r₁ ⟨typings, -⟩ -
    have original (t : TypeTable) (read : r.program.typeTable = .ok t) : (prepare settings r).job.known = t.type? :=
      Job.known_of_fresh rfl read
    exact typings.countsTyped closed plain traces (traced_of_visited formed traces none) original
  exact outcome.of_ok ran rfl

/-- The sample with an integer type and a type of pointers to it. -/
def typedSample (flag storage : Value) : Program :=
  let integer : Instruction := { opcode := .typeInt, resultId := 8, operands := [.literal (.int 32), .literal flag] }
  let pointer : Instruction :=
    { opcode := .typePointer, resultId := 9, operands := [⟨.storageClass, storage⟩, .ofId (.int 8)] }
  ((sample 8).declared integer).declared pointer

def typedRun (flag storage : Value) : Run Unit where
  job := { workspace := { program := typedSample flag storage } }
  host := ()

theorem countsTyped_of_run_numeral : ∃ counter index,
    (finalState (run {} {} (typedRun (.int 0) (.str "12")))).CountsTyped {} (typedSample (.int 0) (.str "12"))
      counter index := by
  have ran := eq_ok_of_answer
    (by decide +kernel : answer? (run {} {} (typedRun (.int 0) (.str "12"))) = some .changed)
  exact countsTyped_of_run Hooks.quiet_default (by decide +kernel) (by decide) (by decide) (by decide)
    (by decide +kernel) ran

/-- A run makes use of an integer type whose flag is a text, and of a pointer type whose storage class is one. No
integer type has the flag 0 then, and no type of pointers to it has the number of storage buffers. -/
theorem not_declared_of_texts : (typedSample (.str "") (.str "12")).validate = .ok () ∧
    (typedSample (.str "") (.str "12")).TypesNumbered ∧ (typedSample (.str "") (.str "12")).ConstantsNumbered ∧
    (typedSample (.str "") (.str "12")).UnsignedDistinct ∧
    ∃ r', run {} {} (typedRun (.str "") (.str "12")) = .ok .changed r' ∧
      (∀ i, r'.program.Declares i → i.opcode = .typeInt → i.value 1 ≠ .ok (.int 0)) ∧
      ∀ i, r'.program.Declares i → i.opcode = .typePointer → i.value 1 = .ok (.int 8) →
        i.value 0 ≠ .ok (.int StorageClass.storageBuffer) := by
  have ran := eq_ok_of_answer
    (by decide +kernel : answer? (run {} {} (typedRun (.str "") (.str "12"))) = some .changed)
  refine ⟨by decide +kernel, by decide, by decide, by decide +kernel, _, ran, ?_, ?_⟩
  · rintro i ⟨r, member, rfl⟩
    revert r
    decide +kernel
  · rintro i ⟨r, member, rfl⟩
    revert r
    decide +kernel

end Run

end BlockTally
