import BlockTally.Proofs.Counter.Provisioning
import BlockTally.Proofs.Counter.Rerun
import BlockTally.Proofs.Workspace.UnnumberedTypes

/-! The layout of the counter buffer.

Whatever types a module has already, the buffer variable points to a block whose only member is a runtime array of
counters at offset 0. A type of the module is used again only if a reading finds no difference to this, and nothing
that is declared or annotated later on changes the reading.
-/

set_option autoImplicit false

namespace BlockTally

open Change

/-- The block that is documented for counters of the given number of bytes: an array of unsigned integers at offset 0,
as far apart as they are long. -/
def counterBlock (bytes : Int) : Ty :=
  .struct [.wrap .runtimeArray (.atom (.integer (.int (8 * bytes)) false) []) [[.int 6, .int bytes]]]
    [[.int 0, .int 35, .int 0]] [[.int 2]]

theorem CounterBuffer.bufferType_eq (b : CounterBuffer) : b.bufferType = counterBlock b.stride := by
  rw [counterBlock, ← b.width_eq_stride]
  rfl

theorem CounterBuffer.simple_pointer (b : CounterBuffer) : (Ty.pointer b.bufferType (.int 12)).Simple :=
  .wrap _ _ (.struct _ _ (.wrap _ _ (.atom _ _)))

namespace Program

/-- The only variable with the id is in the storage buffer class and points to a documented block. It is annotated with
descriptor set 5 and binding 1, and with nothing else. -/
structure LaysOut (p : Program) (wide : Bool) (v : Id) : Prop where
  declared : ∃ r ∈ p.module.typesValues, (∀ s ∈ p.module.typesValues, (p.inst s).resultId = v → s = r) ∧
    ∃ typeId, p.inst r = { opcode := .var, typeId, resultId := v, operands := [⟨.storageClass, .int 12⟩] } ∧
      ∃ t w storage, Workspace.needTypes { program := p } = .ok t w ∧ storage.number? = some 12 ∧
        t.type? (.int typeId) = some (.wrap (.pointer storage) (counterBlock (if wide then 8 else 4)) [])
  annotated : (p.module.annotations.filter fun r => (p.inst r).target? = some (.int v)).map p.inst =
    [Workspace.decoration v 34 [.int 5], Workspace.decoration v 33 [.int 1]]

variable {p q : Program} {id : Id} {ty : Ty}

def typeOf? (p : Program) (r : InstRef) : Option Ty := do
  let t ← answer? (Workspace.needTypes { program := p })
  t.type? (.int (p.inst r).typeId)

variable {wide : Bool} {v : Id}

theorem LaysOut.exists_alone (h : p.LaysOut wide v) :
    ∃ r ∈ p.module.typesValues, ∀ s ∈ p.module.typesValues, (p.inst s).resultId = v → s = r := by
  obtain ⟨r, member, alone, -⟩ := h.declared
  exact ⟨r, member, alone⟩

theorem LaysOut.exists_typeOf? (h : p.LaysOut wide v) :
    ∃ r ∈ p.module.typesValues, (p.inst r).resultId = v ∧
      (p.typeOf? r).map Ty.key = some (Ty.pointer (counterBlock (if wide then 8 else 4)) (.int 12)).key := by
  obtain ⟨r, member, -, typeId, inst, t, w, storage, read, number, found⟩ := h.declared
  have plain : storage.plain = .int 12 := by rw [Value.plain, number]
  refine ⟨r, member, congrArg _ inst, ?_⟩
  rw [typeOf?, read, inst]
  simp [answer?, found, Ty.key, Ty.pointer, Wrapper.plain, plain]

/-- What is known is found by a workspace without facts. -/
theorem Knows.exists_needTypes (h : p.Knows id ty) :
    ∃ t w, Workspace.needTypes { program := p } = .ok t w ∧ Ty.KnownAs t.type? id ty := by
  obtain ⟨t, read, ty₀, found, key⟩ := h
  have table := Workspace.after_needTypes (Workspace.current_forgotten p)
  obtain ⟨t', w, ran, ⟨t₀, read₀, agrees⟩, -⟩ :=
    Workspace.exists_ok (After.mono table (fun _ _ held => held) fun _ _ none => none t read)
  obtain rfl := Except.ok.inj (read.symm.trans read₀)
  obtain ⟨ty', found', key'⟩ := agrees.symm.type found
  exact ⟨t', w, ran, ty', found', key'.trans key⟩

end Program

namespace Workspace

/-- A variable of the pointer type is declared under the id, no entry point is one with it, and these are its
annotations. -/
structure Places (v : Id) (ty : Ty) (notes : List Instruction) (w : Workspace) : Prop where
  filed : w.Filed
  firm : w.program.EntriesFirm
  annotations : ∀ a, w.facts.annotations = some a → Annotations.ofProgram w.program = .ok a
  simple : ty.Simple
  declared : ∃ r ∈ w.program.module.typesValues, r ∉ w.program.module.entryPoints ∧
    (∀ s ∈ w.program.module.typesValues, (w.program.inst s).resultId = v → s = r) ∧
    ∃ typeId, w.program.inst r = bufferDeclaration typeId v ∧ w.program.Knows typeId ty
  notes : (w.program.module.annotations.filter fun r => (w.program.inst r).target? = some (.int v)).map
    w.program.inst = notes

variable {w w' : Workspace} {v pointerType : Id} {ty : Ty} {notes : List Instruction} {α : Type}
  {targets : Set Value}

theorem places_declareBufferVariable (h : w.Lucid) (simple : ty.Simple) (known : w.program.Knows pointerType ty) :
    Then (declareBufferVariable pointerType) w fun id w' => id ≠ 0 → Places id ty [] w' := by
  unfold declareBufferVariable
  refine After.bind (after_takeId (fun _ => True.intro) fun free => ?_)
  refine After.bind (after_newInst (After.bind (after_listed (After.pure fun nonzero => ?_))))
  let i := bufferDeclaration pointerType w.program.module.idBound
  let q := w.program.declared i
  let r : InstRef := ⟨w.program.instructions.size⟩
  obtain ⟨adds, held⟩ := h.filed.lists.globalsHeld.declared i
  have inst : q.inst r = i := w.program.inst_declared i
  have declared : w.program.Declared q r [] :=
    ⟨adds, held, rfl, congrArg _ inst, nonzero, fun constant => (nomatch inst ▸ constant), nofun⟩
  have types := declared.typeTable_of_variable (congrArg _ inst)
  -- No other declaration and no annotation has the new id, which was the bound.
  have alone : ∀ s ∈ q.module.typesValues, (q.inst s).resultId = w.program.module.idBound → s = r := by
    intro s member same
    rcases List.mem_append.mp (adds.typesValues ▸ member) with old | last
    · rw [adds.global s old] at same
      exact absurd same (h.program.ids_ne nonzero old)
    · exact List.mem_singleton.mp last
  have unannotated : (q.module.annotations.filter fun n =>
      (q.inst n).target? = some (.int w.program.module.idBound)) = [] := by
    refine List.filter_eq_nil_iff.mpr fun n member target => ?_
    have old : n ∈ w.program.module.annotations := member
    rw [adds.note n old] at target
    exact Int.lt_irrefl _ (h.program.targets n old _ (by simpa using target))
  obtain ⟨filed, firm⟩ := filed_of_steps h.filed h.firm (.single (.declare (i := i) free rfl))
  exact {
    filed, firm, simple
    annotations := fun a found => (adds.ofProgram_eq rfl).trans (h.current.annotations a found)
    declared := ⟨r, w.program.mem_declared i, fun entry => Nat.lt_irrefl _ (h.filed.lists .entryPoints r entry), alone,
      pointerType, inst, (Program.Retains.of_same types).knows known⟩
    notes := congrArg (List.map q.inst) unannotated }

namespace Places

theorem aside (h : Places v ty notes w) (aside : w.Aside ∅ targets w') : Places v ty notes w' := by
  have grows := aside.program_extends.toGrows
  have lengthens := aside.lengthens h.filed.lists h.firm
  obtain ⟨filed, firm⟩ := filed_of_steps h.filed h.firm (.single (.aside aside))
  obtain ⟨r, member, unlisted, alone, typeId, inst, knows⟩ := h.declared
  refine ⟨filed, firm, fun a known => lengthens.notes.ofProgram.trans ?_, h.simple,
    ⟨r, lengthens.typesValues ▸ member, ?_, fun s listed same => ?_, typeId, ?_, lengthens.knows h.simple knows⟩, ?_⟩
  · cases aside with
    | find find =>
      cases find with
      | annotations _ read =>
        obtain rfl := Option.some.inj known
        exact read
      | uses | features => exact h.annotations a known
    | name | capability | extension | lengthen => exact h.annotations a known
  · rwa [grows.module.entryPoints]
  · rw [lengthens.typesValues] at listed
    rw [grows.resultId (h.filed.lists .typesValues s listed)] at same
    exact alone s listed same
  · exact (grows.inst (h.filed.lists .typesValues r member) unlisted).trans inst
  · rw [← h.notes, lengthens.notes.annotations,
      List.filter_congr fun n listed => by rw [lengthens.notes.target? listed]]
    refine List.map_congr_left fun n among => ?_
    obtain ⟨listed, target⟩ := List.mem_filter.mp among
    refine (lengthens.notes.annotation n listed).resolve_right fun plain => ?_
    simp [Instruction.target?, plain.1] at target

theorem asides (h : Places v ty notes w) {change : Action α} {post : α → Workspace → Prop}
    (keeps : (asides ∅ targets).Keeps change w post) : Then change w fun _ => Places v ty notes := by
  refine After.mono keeps (fun _ w' held => ?_) fun _ _ _ => True.intro
  obtain ⟨moves, -⟩ := held
  induction moves with
  | refl => exact h
  | tail _ aside ih => exact ih.aside aside

/-- The variable is annotated anew. -/
theorem decorate {number : Int} {values : List Value} (h : Places v ty notes w)
    (new : ∀ i ∈ notes, i.valuesFrom 1 ≠ .int number :: values) :
    Then (decorate (.int v) (.int number :: values)) w fun _ =>
      Places v ty (notes ++ [decoration v number values]) := by
  have held := h.filed.lists.globalsHeld
  have absent (r : InstRef) (listed : r ∈ w.program.module.annotations)
      (target : (w.program.inst r).target? = some (.int v)) : (w.program.inst r).valuesFrom 1 ≠ .int number :: values :=
    new _ (h.notes ▸ List.mem_map_of_mem (List.mem_filter.mpr ⟨listed, by simpa using target⟩))
  have stepped : (steps ∅).Keeps (Workspace.decorate (.int v) (.int number :: values)) w _ :=
    steps_of_notes (notes_decorate (.int v) _)
  have decorated := After.and (then_decorate h.annotations held absent) stepped
  refine .mono decorated (fun _ w' done => ?_) fun _ _ _ => True.intro
  obtain ⟨⟨program, ⟨b, found, read⟩, -, -⟩, moves, -⟩ := done
  let i := decoration v number values
  let n : InstRef := ⟨w.program.instructions.size⟩
  have adds : w.program.Adds w'.program [] [n] := program ▸ held.noted i
  have inst : w'.program.inst n = i := program ▸ w.program.inst_made i
  have target : (w'.program.inst n).target? = some (.int v) := by rw [inst]; rfl
  obtain ⟨r, member, unlisted, alone, typeId, own, knows⟩ := h.declared
  -- The variable is declared by no type, so the types are read as before.
  have apart : ∀ s ∈ w.program.declarations, ∀ m ∈ [n],
      (w'.program.inst m).target? ≠ some (.int (w.program.inst s).resultId) := by
    intro s declaration m among same
    obtain rfl := List.mem_singleton.mp among
    rw [target] at same
    obtain ⟨listed, declares⟩ := List.mem_filter.mp declaration
    obtain rfl := alone s listed (Value.int.inj (Option.some.inj same)).symm
    rw [own] at declares
    cases declares
  obtain ⟨types, -⟩ := adds.tables read apart
  have typesValues : w'.program.module.typesValues = w.program.module.typesValues := by rw [program]; rfl
  obtain ⟨filed, firm⟩ := filed_of_steps h.filed h.firm moves
  refine ⟨filed, firm, fun a same => Option.some.inj (found.symm.trans same) ▸ read, h.simple,
    ⟨r, typesValues ▸ member, ?_, fun s listed same => ?_, typeId, (adds.global r member).trans own,
      (Program.Retains.of_same types).knows knows⟩, ?_⟩
  · rw [program]
    exact unlisted
  · rw [typesValues] at listed
    rw [adds.global s listed] at same
    exact alone s listed same
  · rw [adds.annotations, List.filter_append, List.map_append, List.filter_congr fun m listed => by
      rw [adds.note m listed], ← h.notes]
    refine congrArg₂ _ (List.map_congr_left fun m among => adds.note m (List.mem_of_mem_filter among)) ?_
    rw [List.filter_cons_of_pos (by simpa using target), List.filter_nil, List.map_singleton, inst]

/-- A reading finds the documented layout. -/
theorem laysOut {b : CounterBuffer} (h : Places v (.pointer b.bufferType (.int 12))
    [decoration v 34 [.int 5], decoration v 33 [.int 1]] w) : w.program.LaysOut b.wide v := by
  obtain ⟨r, member, -, alone, typeId, inst, knows⟩ := h.declared
  obtain ⟨t, w', read, ty, found, key⟩ := knows.exists_needTypes
  obtain ⟨storage, block, rfl, number, key'⟩ := Ty.eq_pointer_of_key key
  obtain rfl := b.eq_bufferType key'
  rw [b.bufferType_eq] at found
  exact ⟨⟨r, member, alone, typeId, inst, t, w', storage, read, number, found⟩, h.notes⟩

end Places

end Workspace

namespace Job

open Workspace (Lucid Places)

variable {j : Job} {v : Id} {ty : Ty} {notes : List Instruction}

/-- What is done aside leaves the variable alone. -/
theorem places_asides {action : Action Unit} {post : Unit → Workspace → Prop}
    (h : v ≠ 0 → Places v ty notes j.workspace) (keeps : (Workspace.asides ∅ Set.univ).Keeps action j.workspace post) :
    After (liftM action : Provision Unit) j (fun _ j' => v ≠ 0 → Places v ty notes j'.workspace) fun _ _ => True :=
  After.given fun nonzero => after_lift ((h nonzero).asides keeps)

theorem places_decorate {number : Int} {values : List Value} (h : v ≠ 0 → Places v ty notes j.workspace)
    (new : ∀ i ∈ notes, i.valuesFrom 1 ≠ .int number :: values) :
    After (discard (Workspace.decorate (.int v) (.int number :: values)) : Provision Unit) j
      (fun _ j' => v ≠ 0 → Places v ty (notes ++ [Workspace.decoration v number values]) j'.workspace)
      fun _ _ => True :=
  After.discard (After.given fun nonzero => after_lift ((h nonzero).decorate new))

/-- A variable that points to the buffer type is laid out as documented. -/
theorem laysOut_declareVariable {bufferType : Id} (b : CounterBuffer) (h : j.workspace.Lucid)
    (known : j.workspace.program.Knows bufferType b.bufferType) : After (declareVariable b.wide bufferType) j
      (fun v j' => v ≠ 0 → j'.workspace.program.LaysOut b.wide v) fun _ _ => True := by
  unfold declareVariable
  have typed : Workspace.lucid.Keeps (Workspace.pointerId (.int bufferType) (.int 12)) j.workspace _ :=
    Workspace.lucid_pointerId h (fun _ => b.eq_bufferType) b.formed_bufferType known
  refine (after_lift typed).andThen fun pointerType j₁ held => ?_
  have declared := Workspace.places_declareBufferVariable (held.1 h).1 b.simple_pointer held.2
  refine (after_lift declared).andThen fun v j₂ places => ?_
  have names {w : Workspace} : (Workspace.asides ∅ Set.univ).Keeps
      (Workspace.addBufferNames (.int bufferType) (.int v)) w _ :=
    Workspace.asides_addBufferNames (Set.mem_univ _) (Set.mem_univ _)
  refine (places_asides places names).andThen fun _ j₃ places => ?_
  refine (places_decorate places nofun).andThen fun _ j₄ places => ?_
  have other := Workspace.decoration_values v Decoration.descriptorSet [.int CounterBuffer.descriptorSet]
  refine (places_decorate places (List.forall_mem_singleton.mpr (other ▸ by decide))).andThen fun _ j₅ places => ?_
  refine (places_asides places Workspace.asides_provideExtension).andThen fun _ j₆ places => ?_
  have ending {j : Job} (places : v ≠ 0 → Places v (.pointer b.bufferType (.int 12))
      [Workspace.decoration v 34 [.int 5], Workspace.decoration v 33 [.int 1]] j.workspace) :
      After (listVariable v) j (fun v j' => v ≠ 0 → j'.workspace.program.LaysOut b.wide v) fun _ _ => True :=
    (places_asides places (Workspace.asides_extendInterfaces (Set.mem_univ _))).andThen fun _ _ places =>
      After.pure fun nonzero => (places nonzero).laysOut
  dsimp only
  split
  · exact (places_asides places Workspace.asides_provideWideCounters).andThen fun _ _ places => ending places
  · exact ending places

theorem laysOut_declareBuffer (h : j.workspace.Lucid) : After declareBuffer j
    (fun v j' => v ≠ 0 → j'.workspace.program.LaysOut j.buffer.wide v) fun _ _ => True := by
  rw [declareBuffer_eq]
  refine After.bind_get ?_
  have typed := after_lift (Workspace.lucid_typeId _ h j.buffer.formed_bufferType)
  refine typed.andThen fun bufferType j₁ held => ?_
  obtain ⟨move, known⟩ := held
  refine (after_lift Workspace.lucid_needUses).andThen fun uses j₂ used => ?_
  obtain ⟨move₂, program⟩ := used
  have lucid := (move₂ (move h).1).1
  have known₂ : j₂.workspace.program.Knows bufferType _ := program.symm ▸ known
  dsimp only
  split
  · exact After.bind (After.modify (laysOut_declareVariable j.buffer lucid known₂))
  · exact laysOut_declareVariable j.buffer lucid known₂

/-- In a valid module the first request for the variable lays it out as documented, whatever types there are, if no
annotation is of an id that is still to be taken, and if no annotation is listed as an entry point where interfaces
get longer. -/
theorem laysOut_of_bufferId {p : Program} {wide : Bool} {v : Id} {j : Job} (valid : p.validate = .ok ())
    (closed : p.Closed) (targets : p.AnnotatesBelow) (apart : p.NotesApart)
    (done : bufferId { workspace := { program := p }, buffer := { wide } } = .ok v j) (nonzero : v ≠ 0) :
    j.workspace.program.LaysOut wide v := by
  have lucid := Workspace.lucid_of_valid valid closed targets apart
  have laid : After bufferId { workspace := { program := p }, buffer := { wide } }
      (fun v j' => v ≠ 0 → j'.workspace.program.LaysOut wide v) fun _ _ => True := by
    unfold bufferId
    refine After.bind_get ?_
    refine (laysOut_declareBuffer lucid).andThen fun v j₁ laid => ?_
    exact After.bind (After.modify (After.pure laid))
  exact laid.of_ok done nonzero

/-- A module that has nearly everything already: an unsigned integer without an id, arrays with two strides, a block of
the wrong array, and a block with one decoration too many. -/
def crowded : Program where
  instructions := ⟨#[
    { instruction := { opcode := .typeInt, operands := [.literal (.int 32), .literal (.int 0)] } },
    { instruction := { opcode := .typeInt, resultId := 1, operands := [.literal (.int 32), .literal (.int 0)] } },
    { instruction := { opcode := .typeRuntimeArray, resultId := 2, operands := [.ofId (.int 1)] } },
    { instruction := { opcode := .typeRuntimeArray, resultId := 3, operands := [.ofId (.int 1)] } },
    { instruction := { opcode := .typeStruct, resultId := 4, operands := [.ofId (.int 3)] } },
    { instruction := { opcode := .typeStruct, resultId := 5, operands := [.ofId (.int 2)] } },
    { instruction :=
        { opcode := .decorate, operands := [.ofId (.int 2), ⟨.decoration, .int 6⟩, .literal (.int 4)] } },
    { instruction :=
        { opcode := .decorate, operands := [.ofId (.int 3), ⟨.decoration, .int 6⟩, .literal (.int 16)] } },
    { instruction := { opcode := .decorate, operands := [.ofId (.int 4), ⟨.decoration, .int 2⟩] } },
    { instruction := { opcode := .memberDecorate
                       operands := [.ofId (.int 4), .literal (.int 0), ⟨.decoration, .int 35⟩, .literal (.int 0)] } },
    { instruction := { opcode := .decorate, operands := [.ofId (.int 5), ⟨.decoration, .int 2⟩] } },
    { instruction := { opcode := .memberDecorate
                       operands := [.ofId (.int 5), .literal (.int 0), ⟨.decoration, .int 24⟩] } },
    { instruction := { opcode := .memberDecorate
                       operands := [.ofId (.int 5), .literal (.int 0), ⟨.decoration, .int 35⟩, .literal (.int 0)] } }]⟩
  module :=
    { idBound := 6, typesValues := [⟨0⟩, ⟨1⟩, ⟨2⟩, ⟨3⟩, ⟨4⟩, ⟨5⟩]
      annotations := [⟨6⟩, ⟨7⟩, ⟨8⟩, ⟨9⟩, ⟨10⟩, ⟨11⟩, ⟨12⟩] }

/-- The integer and one of the arrays are used again. The blocks are not. -/
theorem laysOut_of_bufferId_crowded : ∃ j, bufferId { workspace := { program := crowded } } = .ok 8 j ∧
    j.workspace.program.LaysOut false 8 := by
  have done := eq_ok_of_answer (by decide +kernel :
    answer? (bufferId { workspace := { program := crowded } }) = some 8)
  exact ⟨_, done,
    laysOut_of_bufferId (by decide +kernel) (by decide) (by decide) (by decide) done (by decide)⟩

/-- Validity alone is not enough: an integer that gets an id with an annotation is read as a decorated one. -/
theorem not_laysOut_of_valid : ¬∀ (p : Program) (wide : Bool) (v : Id) (j : Job), p.validate = .ok () → p.Closed →
    bufferId { workspace := { program := p }, buffer := { wide } } = .ok v j →
    j.workspace.program.LaysOut wide v := by
  intro always
  have done := eq_ok_of_answer (by decide +kernel :
    answer? (bufferId { workspace := { program := Workspace.literalTarget } }) = some 5)
  have laid := always Workspace.literalTarget false 5 _ (by decide +kernel) (by decide) done
  exact absurd laid.exists_typeOf? (by decide +kernel)

/-- Nor is it enough that no annotation is of an id to come: an annotation that is listed as an entry point gets the
variable as a further operand. -/
theorem not_laysOut_of_annotatesBelow : ¬∀ (p : Program) (wide : Bool) (v : Id) (j : Job), p.validate = .ok () →
    p.Closed → p.AnnotatesBelow → bufferId { workspace := { program := p }, buffer := { wide } } = .ok v j → v ≠ 0 →
    j.workspace.program.LaysOut wide v := by
  intro always
  have done := eq_ok_of_answer (by decide +kernel :
    answer? (bufferId { workspace := { program := Run.shared.program } }) = some 9)
  have laid := always _ false 9 _ (by decide +kernel) (by decide) (by decide) done (by decide)
  exact absurd laid.exists_typeOf? (by decide +kernel)

def nameless : Program where
  instructions := ⟨#[{ instruction := { opcode := .var, operands := [⟨.storageClass, .int 6⟩] } }]⟩
  module := { idBound := -4, typesValues := [⟨0⟩] }

/-- If the variable gets the id 0, it cannot be told from one that has no id. -/
theorem not_laysOut_of_notesApart : ¬∀ (p : Program) (wide : Bool) (v : Id) (j : Job), p.validate = .ok () →
    p.Closed → p.AnnotatesBelow → p.NotesApart →
    bufferId { workspace := { program := p }, buffer := { wide } } = .ok v j → j.workspace.program.LaysOut wide v := by
  intro always
  have done := eq_ok_of_answer (by decide +kernel :
    answer? (bufferId { workspace := { program := nameless } }) = some 0)
  have laid := always nameless false 0 _ (by decide +kernel) (by decide) (by decide) (by decide) done
  exact absurd laid.exists_alone (by decide +kernel)

end Job

end BlockTally
