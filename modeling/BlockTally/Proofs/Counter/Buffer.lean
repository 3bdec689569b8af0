import BlockTally.Proofs.Workspace.Constants

/-! The provision of the counter buffer.

From the first request on, the buffer is one variable that is declared in the module.
-/

set_option autoImplicit false

namespace BlockTally

open Account Contract

namespace Workspace

variable {good : Prop} {w : Workspace}

/-! ### The variable -/

def bufferDeclaration (pointerType id : Id) : Instruction where
  opcode := .var
  typeId := pointerType
  resultId := id
  operands := [⟨.storageClass, .int StorageClass.storageBuffer⟩]

theorem mem_usedIds_bufferDeclaration {pointerType id : Id} {v : Value}
    (used : v ∈ (bufferDeclaration pointerType id).usedIds) : v = .int pointerType := by
  unfold bufferDeclaration Instruction.usedIds at used
  split at used
  · exact List.mem_singleton.mp used
  · cases used

theorem keeps_declareBufferVariable {pointerType : Id} (sane : w.Sane good)
    (known : good → w.program.Defines (.int pointerType)) :
    (requests good).Keeps (declareBufferVariable pointerType) w fun id w' =>
      good → id ≠ 0 ∧ w'.program.HasBuffer id := by
  unfold declareBufferVariable
  refine Change.After.bind (after_takeId (fun full => ⟨.refl w, fun _ => full⟩) fun free => ?_)
  refine Change.After.bind (after_newInst ?_)
  refine Change.After.bind (after_addGlobal fun uses => ?_)
  let i := bufferDeclaration pointerType w.program.module.idBound
  have move : (edits good).moves w { program := w.program.declared i, facts := { w.facts with uses } } := by
    refine advances_declared free rfl (fun assumed v used => ?_) uses
    obtain rfl := mem_usedIds_bufferDeclaration used
    exact known assumed
  refine Change.After.pure ⟨move.1, fun assumed => ⟨?_, ?_⟩⟩
  · obtain ⟨pending, sound⟩ := sane assumed
    exact Int.ne_of_gt sound.linked.positive
  · exact ⟨i, ⟨_, w.program.mem_declared i, w.program.inst_declared i⟩, rfl, rfl, rfl⟩

end Workspace

/-! ### Jobs -/

namespace Job

structure Sound (j : Job) (pending : List Id) : Prop where
  workspace : j.workspace.Sound pending
  variableId : j.buffer.variableId ≠ 0 → j.workspace.program.HasBuffer j.buffer.variableId
  pointerTypeId : j.buffer.pointerTypeId ≠ 0 → j.workspace.program.Defines (.int j.buffer.pointerTypeId)

structure Advances (good : Prop) (j j' : Job) : Prop where
  workspace : j.workspace.Advances good j'.workspace
  wide : j'.buffer.wide = j.buffer.wide
  variableId : j.buffer.variableId ≠ 0 → j'.buffer.variableId = j.buffer.variableId
  sound : good → ∀ pending, j.Sound pending → j'.Sound pending

def Sane (good : Prop) (j : Job) : Prop :=
  good → ∃ pending, j.Sound pending

variable {good : Prop}

namespace Advances

theorem refl (j : Job) : j.Advances good j :=
  ⟨.refl _, rfl, fun _ => rfl, fun _ _ => id⟩

theorem trans {j j' j'' : Job} (first : j.Advances good j') (second : j'.Advances good j'') :
    j.Advances good j'' where
  workspace := first.workspace.trans second.workspace
  wide := second.wide.trans first.wide
  variableId declared := by
    have same := first.variableId declared
    rw [second.variableId (same ▸ declared), same]
  sound assumed pending sound := second.sound assumed pending (first.sound assumed pending sound)

theorem sane {j j' : Job} (h : j.Advances good j') (before : j.Sane good) : j'.Sane good := by
  intro assumed
  obtain ⟨pending, sound⟩ := before assumed
  exact ⟨pending, h.sound assumed pending sound⟩

end Advances

theorem Sane.workspace {j : Job} (h : j.Sane good) : j.workspace.Sane good := by
  intro assumed
  obtain ⟨pending, sound⟩ := h assumed
  exact ⟨pending, sound.workspace⟩

def requests (good : Prop) : Contract Job where
  moves j j' := j.Advances good j' ∧ j'.buffer.variableId = j.buffer.variableId
  exhausted j := maxIdBound ≤ j.workspace.program.module.idBound
  refl j := ⟨.refl j, rfl⟩
  trans first second := ⟨first.1.trans second.1, second.2.trans first.2⟩

def provisions (good : Prop) : Contract Job where
  moves := Advances good
  exhausted j := maxIdBound ≤ j.workspace.program.module.idBound
  refl := .refl
  trans := .trans

variable {α : Type} {j : Job}

theorem Keeps.provisions_of_requests {change : Provision α} {post : α → Job → Prop}
    (h : (requests good).Keeps change j post) : (provisions good).Keeps change j post :=
  h.weaken (fun _ move => move.1) fun _ => id

theorem advances_workspace {w : Workspace} (move : j.workspace.Advances good w) :
    j.Advances good { j with workspace := w } where
  workspace := move
  wide := rfl
  variableId _ := rfl
  sound assumed pending sound :=
    { workspace := move.sound assumed pending sound.workspace
      variableId := fun declared =>
        sound.workspace.linked.hasBuffer_of_grows move.program.toGrows declared (sound.variableId declared)
      pointerTypeId := fun declared => sound.workspace.linked.defines_of_grows move.program.toGrows
        move.program.blocks (sound.pointerTypeId declared) }

/-- The buffer may remember more, as long as it stays the same buffer. -/
theorem advances_buffer {b : CounterBuffer} (wide : b.wide = j.buffer.wide)
    (variableId : b.variableId = j.buffer.variableId)
    (pointerTypeId : good → b.pointerTypeId = j.buffer.pointerTypeId ∨
      j.workspace.program.Defines (.int b.pointerTypeId)) : (requests good).moves j { j with buffer := b } := by
  refine ⟨⟨.refl _, wide, fun _ => variableId, fun assumed pending sound => ?_⟩, variableId⟩
  refine ⟨sound.workspace, ?_, fun declared => ?_⟩
  · rw [variableId]
    exact sound.variableId
  · rcases pointerTypeId assumed with same | known
    · rw [same] at declared ⊢
      exact sound.pointerTypeId declared
    · exact known

/-- An action of the workspace, seen from the job. -/
theorem keeps_lift {action : Action α} {post : α → Workspace → Prop}
    (h : (Workspace.requests good).Keeps action j.workspace post) :
    (requests good).Keeps (liftM action : Provision α) j fun a j' =>
      j'.buffer = j.buffer ∧ post a j'.workspace :=
  Keeps.within h (fun _ move => ⟨advances_workspace move, rfl⟩) (fun _ => id) fun _ _ _ held => ⟨rfl, held⟩

theorem keeps_liftEdit {action : Action α} (h : (Workspace.edits good).Keeps action j.workspace fun _ _ => True) :
    (requests good).Keeps (liftM action : Provision α) j fun _ _ => True :=
  (keeps_lift (Workspace.Keeps.requests_of_edits h)).trivial

theorem keeps_counterTypeId (sane : j.Sane good) :
    (requests good).Keeps counterTypeId j fun id j' => good → j'.workspace.Knows id j.buffer.counterType := by
  unfold counterTypeId
  apply Keeps.bind_get
  have lengths : good → ∀ v ∈ j.buffer.counterType.lengths, j.workspace.program.Defines v := fun _ => nofun
  exact (keeps_lift (Workspace.keeps_typeId _ sane.workspace lengths)).mono fun _ _ _ held => held.2

structure Ready (good : Prop) (j : Job) (id : Id) : Prop where
  sane : j.Sane good
  declared : good → id ≠ 0 ∧ j.workspace.program.HasBuffer id

theorem Ready.known {id : Id} (h : Ready good j id) : good → j.workspace.program.Defines (.int id) := by
  intro assumed
  obtain ⟨result, declared⟩ := h.declared assumed
  exact declared.defines result

theorem Ready.seq {β : Type} {id : Id} {change : Provision α} {next : α → Provision β} {last : β → Job → Prop}
    (h : Ready good j id) (first : (requests good).Keeps change j fun _ _ => True)
    (rest : ∀ a j', Ready good j' id → (requests good).Keeps (next a) j' last) :
    (requests good).Keeps (change >>= next) j last := by
  apply Keeps.seq first
  intro a j' move
  exact rest a j' ⟨move.1.sane h.sane, move.1.workspace.hasBuffer h.sane.workspace h.declared⟩

/-- What is done aside for the variable. -/
theorem Ready.aside {β : Type} {id : Id} {action : Action α} {next : α → Provision β} {last : β → Job → Prop}
    (h : Ready good j id) (first : (Workspace.asides ∅ {.int id}).Keeps action j.workspace fun _ _ => True)
    (rest : ∀ a j', Ready good j' id → (requests good).Keeps (next a) j' last) :
    (requests good).Keeps (liftM action >>= next) j last := by
  refine h.seq (keeps_liftEdit (Workspace.edits_of_asides h.sane.workspace ?_ first)) rest
  rintro assumed v rfl
  exact h.known assumed

theorem Ready.decorate {β : Type} {id : Id} {d : Decoration} {next : Unit → Provision β} {last : β → Job → Prop}
    (h : Ready good j id) (rest : ∀ a j', Ready good j' id → (requests good).Keeps (next a) j' last) :
    (requests good).Keeps (discard (liftM (Workspace.decorate (.int id) d) : Provision InstRef) >>= next) j last := by
  refine h.seq (keeps_liftEdit (Workspace.edits_of_notes h.sane.workspace h.known ?_)).discard rest
  exact (Workspace.notes_decorate _ _).trivial

def listVariable (id : Id) : Provision Id := do
  Workspace.extendInterfaces id
  return id

def supportVariable (wide : Bool) (id : Id) : Provision Id := do
  Workspace.provideExtension
  if wide then
    Workspace.provideWideCounters
  listVariable id

def presentVariable (wide : Bool) (bufferType id : Id) : Provision Id := do
  Workspace.addBufferNames (.int bufferType) (.int id)
  discard <| Workspace.decorate (.int id) [.int Decoration.descriptorSet, .int CounterBuffer.descriptorSet]
  discard <| Workspace.decorate (.int id) [.int Decoration.binding, .int CounterBuffer.binding]
  supportVariable wide id

def declareVariable (wide : Bool) (bufferType : Id) : Provision Id := do
  let pointerType ← Workspace.pointerId (.int bufferType) (.int StorageClass.storageBuffer)
  presentVariable wide bufferType (← Workspace.declareBufferVariable pointerType)

theorem declareBuffer_eq : declareBuffer = (do
    let b := (← get).buffer
    let bufferType ← Workspace.typeId b.bufferType
    if (← Workspace.needUses).usesOf (.int bufferType) = [] then
      changeBuffer fun b => { b with unusedTypes := b.unusedTypes ++ [bufferType] }
    declareVariable b.wide bufferType) := rfl

theorem keeps_declareVariable {bufferType : Id} {ty : Ty} (wide : Bool) (sane : j.Sane good)
    (known : good → j.workspace.Knows bufferType ty) (noLengths : ty.lengths = []) :
    (requests good).Keeps (declareVariable wide bufferType) j
      fun id j' => good → id ≠ 0 ∧ j'.workspace.program.HasBuffer id := by
  have lengths : good → ∀ v ∈ ty.lengths, j.workspace.program.Defines v := by
    rw [noLengths]
    exact fun _ v member => absurd member List.not_mem_nil
  apply (keeps_lift (Workspace.keeps_pointerId _ sane.workspace known lengths)).bind
  intro pointerType j₁ move₁ asked
  have pointer := asked.2
  have sane₁ := move₁.1.sane sane
  apply (keeps_lift (Workspace.keeps_declareBufferVariable sane₁.workspace pointer)).bind
  intro id j₂ move₂ made
  have declared := made.2
  have ready₂ : Ready good j₂ id := ⟨move₂.1.sane sane₁, declared⟩
  have typeKnown : good → j₂.workspace.program.Defines (.int bufferType) :=
    (move₁.1.trans move₂.1).workspace.defines sane.workspace fun assumed => (known assumed).1
  have targets : good → ∀ v ∈ ({.int bufferType, .int id} : Set Value), j₂.workspace.program.Defines v := by
    rintro assumed v (rfl | rfl)
    · exact typeKnown assumed
    · exact ready₂.known assumed
  have names : (Workspace.asides ∅ {.int bufferType, .int id}).Keeps
      (Workspace.addBufferNames (.int bufferType) (.int id)) j₂.workspace fun _ _ => True :=
    Workspace.asides_addBufferNames (.inl rfl) (.inr rfl)
  apply ready₂.seq (keeps_liftEdit (Workspace.edits_of_asides ready₂.sane.workspace targets names))
  intro _ j₃ ready₃
  apply ready₃.decorate
  intro _ j₄ ready₄
  apply ready₄.decorate
  intro _ j₅ ready₅
  apply ready₅.aside Workspace.asides_provideExtension
  intro _ j₆ ready₆
  -- Both widths end the same way.
  have ending {j₇ : Job} (ready₇ : Ready good j₇ id) : (requests good).Keeps (listVariable id) j₇
      fun id j' => good → id ≠ 0 ∧ j'.workspace.program.HasBuffer id :=
    ready₇.aside (Workspace.asides_extendInterfaces rfl) fun _ _ ready₈ => Keeps.pure ready₈.declared
  split
  · exact ready₆.aside Workspace.asides_provideWideCounters fun _ _ => ending
  · exact ending ready₆

theorem keeps_declareBuffer (sane : j.Sane good) :
    (requests good).Keeps declareBuffer j fun id j' => good → id ≠ 0 ∧ j'.workspace.program.HasBuffer id := by
  rw [declareBuffer_eq]
  apply Keeps.bind_get
  have lengths : good → ∀ v ∈ j.buffer.bufferType.lengths, j.workspace.program.Defines v := fun _ => nofun
  apply (keeps_lift (Workspace.keeps_typeId _ sane.workspace lengths)).bind
  intro bufferType j₁ move₁ ⟨_, known₁⟩
  apply (keeps_liftEdit (Workspace.edits_of_finds Workspace.finds_needUses.trivial)).seq
  intro uses j₂ move₂
  have known₂ : good → j₂.workspace.Knows bufferType j.buffer.bufferType :=
    move₂.1.workspace.knows (move₁.1.sane sane).workspace known₁
  have sane₂ := (move₁.1.trans move₂.1).sane sane
  -- The note about an unused type changes nothing that the rest reads.
  by_cases unused : uses.usesOf (.int bufferType) = []
  · dsimp only
    rw [if_pos unused]
    refine Keeps.bind (Keeps.modify (advances_buffer rfl rfl fun _ => .inl rfl)) fun _ j₃ move₃ same => ?_
    subst same
    exact keeps_declareVariable j.buffer.wide (move₃.1.sane sane₂) known₂ rfl
  · dsimp only
    rw [if_neg unused]
    exact keeps_declareVariable j.buffer.wide sane₂ known₂ rfl

def HasVariable (j : Job) (id : Id) : Prop :=
  id ≠ 0 ∧ j.buffer.variableId = id ∧ j.workspace.program.HasBuffer id

theorem Advances.hasVariable {j' : Job} (h : j.Advances good j') (sane : j.Sane good) {id : Id}
    (known : good → j.HasVariable id) : good → j'.HasVariable id := by
  intro assumed
  obtain ⟨result, same, declared⟩ := known assumed
  obtain ⟨-, declared'⟩ := h.workspace.hasBuffer sane.workspace (fun _ => ⟨result, declared⟩) assumed
  refine ⟨result, ?_, declared'⟩
  rw [h.variableId (same ▸ result), same]

theorem keeps_bufferId (sane : j.Sane good) :
    (provisions good).Keeps bufferId j fun id j' => good → j'.HasVariable id := by
  unfold bufferId
  apply Keeps.bind_get
  dsimp only
  by_cases declared : j.buffer.variableId ≠ 0
  · rw [if_pos declared]
    apply Keeps.pure
    intro assumed
    obtain ⟨pending, sound⟩ := sane assumed
    exact ⟨declared, rfl, sound.variableId declared⟩
  · rw [if_neg declared]
    -- The new variable is remembered in the last step, so that step is no move by itself.
    refine Change.After.bind (Change.After.mono (keeps_declareBuffer sane) ?_ ?_)
    · rintro id j₁ ⟨⟨move, -⟩, held⟩
      refine Change.After.bind (Change.After.modify (Change.After.pure ⟨?_, ?_⟩))
      · refine ⟨move.workspace, move.wide, fun old => absurd old declared, fun assumed pending sound => ?_⟩
        have sound₁ := move.sound assumed pending sound
        exact ⟨sound₁.workspace, fun _ => (held assumed).2, sound₁.pointerTypeId⟩
      · exact fun assumed => ⟨(held assumed).1, rfl, (held assumed).2⟩
    · rintro e j₁ ⟨⟨move, -⟩, full⟩
      exact ⟨move, full⟩

theorem keeps_pointerTypeId (sane : j.Sane good) :
    (provisions good).Keeps pointerTypeId j fun id j' => good → j'.workspace.program.Defines (.int id) := by
  unfold pointerTypeId
  apply Keeps.bind_get
  dsimp only
  by_cases asked : j.buffer.pointerTypeId ≠ 0
  · rw [if_pos asked]
    apply Keeps.pure
    intro assumed
    obtain ⟨pending, sound⟩ := sane assumed
    exact sound.pointerTypeId asked
  · rw [if_neg asked]
    apply (Keeps.provisions_of_requests (keeps_counterTypeId sane)).bind
    intro counterType j₁ move₁ known
    have lengths : good → ∀ v ∈ j.buffer.counterType.lengths, j₁.workspace.program.Defines v := fun _ => nofun
    have pointer := keeps_lift (Workspace.keeps_pointerId (.int StorageClass.storageBuffer)
      (move₁.sane sane).workspace known lengths)
    apply (Keeps.provisions_of_requests pointer).bind
    intro id j₂ move₂ held
    -- The id is noted once it is declared.
    have move : (requests good).moves j₂ { j₂ with buffer := { j₂.buffer with pointerTypeId := id } } :=
      advances_buffer rfl rfl fun assumed => .inr (held.2 assumed)
    apply Keeps.bind (Keeps.modify move.1)
    intro _ j₃ _ same
    subst same
    exact Keeps.pure held.2

end Job

end BlockTally
