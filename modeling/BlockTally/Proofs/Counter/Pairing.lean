import BlockTally.Proofs.Counter.Supply
import BlockTally.Proofs.Workspace.Pairing

/-! Increments of programs that look alike.

The buffer is declared with the same ids, and an increment of a counter is made of the same instructions. The jobs may
disagree on which types of buffers nothing was seen to use, since that goes by all code.
-/

set_option autoImplicit false

namespace BlockTally

open Change

variable {ρ : Pairing} {α β : Type} {R : α → β → Prop} {K : Prop}

namespace Workspace

theorem anyNames_alike {p q : Program} (alike : p.Alike ρ q) (target : Value) {refs refs' : List InstRef}
    (listed : List.Forall₂ ρ.insts refs refs') : anyNames q target refs' = anyNames p target refs := by
  induction listed with
  | nil => rfl
  | cons here _ ih =>
    unfold anyNames
    rw [alike.inst here, ih]

theorem agrees_addBufferNames (bufferType buffer : Value) :
    Agrees (Alike K ρ) (addBufferNames bufferType buffer) (addBufferNames bufferType buffer) Eq := by
  have name (i : Instruction) : Agrees (Alike K ρ) (do addName (← Program.newInst i)) (do addName (← Program.newInst i))
      Eq := (agrees_edit (Program.agrees_newInst i)).bind fun r s paired => agrees_addName paired
  unfold addBufferNames
  refine .bind_get fun w v alike => ?_
  dsimp only
  have names := anyNames_alike alike.program bufferType (alike.program.module.list .debugs2)
  unfold Module.list at names
  rw [names]
  refine .seq_check fun named => ?_
  split
  · exact name _
  · refine (agrees_edit (Program.agrees_newInst _)).bind fun r s paired => (agrees_addName paired).seq fun _ => ?_
    refine (agrees_edit (Program.agrees_newInst _)).bind fun r s paired => (agrees_addName paired).seq fun _ => ?_
    exact name _

theorem agrees_provideExtension : Agrees (Alike K ρ) provideExtension provideExtension Eq := by
  unfold provideExtension
  refine agrees_needFeatures.seq fun f => .bind_get fun w v alike => ?_
  unfold Features.hasExtension
  rw [alike.program.module.version]
  split
  · exact .pure rfl
  · exact agrees_addExtension _

theorem agrees_provideCapability (capability : Int) :
    Agrees (Alike K ρ) (provideCapability capability) (provideCapability capability) Eq := by
  unfold provideCapability
  refine agrees_needFeatures.seq fun f => ?_
  split
  · exact .pure rfl
  · exact agrees_addCapability _

theorem agrees_provideWideCounters : Agrees (Alike K ρ) provideWideCounters provideWideCounters Eq :=
  (agrees_provideCapability _).seq fun _ => agrees_provideCapability _

theorem agrees_extendInterfaces (id : Id) : Agrees (Alike K ρ) (extendInterfaces id) (extendInterfaces id) Eq := by
  unfold extendInterfaces
  refine .bind_get fun w v alike => ?_
  dsimp only
  rw [alike.program.module.version]
  split
  · exact .forM (alike.program.module.list .entryPoints) fun r s paired =>
      (agrees_edit (Program.agrees_addOperand _ paired)).seq fun _ => agrees_mapUses _ _
  · exact .pure rfl

theorem agrees_declareBufferVariable (pointerType : Id) :
    Agrees (Alike K ρ) (declareBufferVariable pointerType) (declareBufferVariable pointerType) Eq := by
  unfold declareBufferVariable
  refine (agrees_edit Program.agrees_takeId).seq fun id => ?_
  exact (agrees_edit (Program.agrees_newInst _)).bind fun r s paired => (agrees_addGlobal paired).seq fun _ => .pure rfl

theorem needUses_eq (w : Workspace) :
    ∃ u uses, needUses w = .ok u { w with facts := { w.facts with uses } } := by
  obtain ⟨program, ⟨uses, _, _, _, _⟩⟩ := w
  cases uses with
  | some u => exact ⟨u, some u, rfl⟩
  | none => exact ⟨_, _, rfl⟩

/-- The index of uses is found in both, whatever it is. -/
theorem agrees_needUses : Agrees (Alike K ρ) needUses needUses fun _ _ => True := by
  intro w v alike
  obtain ⟨u, uses, found⟩ := needUses_eq w
  obtain ⟨u', uses', found'⟩ := needUses_eq v
  rw [found, found']
  exact .ok True.intro ⟨alike.program, alike.annotations, alike.types, alike.constants, alike.features⟩

end Workspace

structure CounterBuffer.Alike (b c : CounterBuffer) : Prop where
  wide : c.wide = b.wide
  variableId : c.variableId = b.variableId
  pointerTypeId : c.pointerTypeId = b.pointerTypeId

namespace Job

structure Alike (K : Prop) (ρ : Pairing) (j k : Job) : Prop where
  workspace : Workspace.Alike K ρ j.workspace k.workspace
  buffer : j.buffer.Alike k.buffer

theorem agrees_action {action : Action α} {action' : Action β} (h : Agrees (Workspace.Alike K ρ) action action' R) :
    Agrees (Alike K ρ) (liftM action : Provision α) (liftM action' : Provision β) R :=
  .within h (fun _ _ alike => alike.workspace) fun _ _ _ _ alike workspace => { alike with workspace }

theorem agrees_edit {edit : Edit α} {edit' : Edit β} (h : Agrees (Program.Alike ρ) edit edit' R) :
    Agrees (Alike K ρ) (liftM edit : Provision α) (liftM edit' : Provision β) R :=
  agrees_action (Workspace.agrees_edit h)

theorem agrees_changeBuffer {change change' : CounterBuffer → CounterBuffer}
    (kept : ∀ b c, b.Alike c → (change b).Alike (change' c)) :
    Agrees (Alike K ρ) (changeBuffer change) (changeBuffer change') Eq :=
  .modify fun _ _ alike => { alike with buffer := kept _ _ alike.buffer }

/-- A variable is declared for a buffer. -/
theorem agrees_declareVariable (wide : Bool) (bufferType : Id) :
    Agrees (Alike K ρ) (declareVariable wide bufferType) (declareVariable wide bufferType) Eq := by
  refine (agrees_action (Workspace.agrees_pointerId _ _)).seq fun pointerType => ?_
  refine (agrees_action (Workspace.agrees_declareBufferVariable pointerType)).seq fun id => ?_
  refine (agrees_action (Workspace.agrees_addBufferNames _ _)).seq fun _ => ?_
  refine (agrees_action (Workspace.agrees_decorate _ _)).discard.seq fun _ => ?_
  refine (agrees_action (Workspace.agrees_decorate _ _)).discard.seq fun _ => ?_
  refine (agrees_action Workspace.agrees_provideExtension).seq fun _ => ?_
  split
  · refine (agrees_action Workspace.agrees_provideWideCounters).seq fun _ => ?_
    exact (agrees_action (Workspace.agrees_extendInterfaces id)).seq fun _ => .pure rfl
  · exact (agrees_action (Workspace.agrees_extendInterfaces id)).seq fun _ => .pure rfl

theorem agrees_declareBuffer : Agrees (Alike K ρ) declareBuffer declareBuffer Eq := by
  rw [declareBuffer_eq]
  refine .bind_get fun j k alike => ?_
  dsimp only
  rw [CounterBuffer.bufferType_congr alike.buffer.wide, alike.buffer.wide]
  refine (agrees_action (Workspace.agrees_typeId _)).seq fun bufferType => ?_
  refine (agrees_action Workspace.agrees_needUses).bind fun u u' _ => ?_
  have rest := agrees_declareVariable (ρ := ρ) (K := K) j.buffer.wide bufferType
  -- Whether a type of buffers is unused is noted in either job by itself.
  by_cases unused : u.usesOf (.int bufferType) = [] <;> by_cases unused' : u'.usesOf (.int bufferType) = []
  · rw [if_pos unused, if_pos unused']
    refine (agrees_changeBuffer ?_).seq fun _ => rest
    exact fun b c same => ⟨same.wide, same.variableId, same.pointerTypeId⟩
  · rw [if_pos unused, if_neg unused']
    exact fun j k alike => rest _ k ⟨alike.workspace, alike.buffer.wide, alike.buffer.variableId,
      alike.buffer.pointerTypeId⟩
  · rw [if_neg unused, if_pos unused']
    exact fun j k alike => rest j _ ⟨alike.workspace, alike.buffer.wide, alike.buffer.variableId,
      alike.buffer.pointerTypeId⟩
  · rw [if_neg unused, if_neg unused']
    exact rest

theorem agrees_bufferId : Agrees (Alike K ρ) bufferId bufferId Eq := by
  unfold bufferId
  refine .bind_get fun j k alike => ?_
  dsimp only
  rw [alike.buffer.variableId]
  split
  · exact .pure rfl
  · refine agrees_declareBuffer.seq fun id => ?_
    refine (agrees_changeBuffer ?_).seq fun _ => .pure rfl
    exact fun b c same => ⟨same.wide, rfl, same.pointerTypeId⟩

theorem agrees_counterTypeId : Agrees (Alike K ρ) counterTypeId counterTypeId Eq := by
  unfold counterTypeId
  refine .bind_get fun j k alike => ?_
  rw [(CounterBuffer.types_congr alike.buffer.wide).1]
  exact agrees_action (Workspace.agrees_typeId _)

theorem agrees_pointerTypeId : Agrees (Alike K ρ) pointerTypeId pointerTypeId Eq := by
  unfold pointerTypeId
  refine .bind_get fun j k alike => ?_
  dsimp only
  rw [alike.buffer.pointerTypeId]
  split
  · exact .pure rfl
  · refine agrees_counterTypeId.seq fun counterType => (agrees_action (Workspace.agrees_pointerId _ _)).seq fun id => ?_
    refine (agrees_changeBuffer ?_).seq fun _ => .pure rfl
    exact fun b c same => ⟨same.wide, same.variableId, rfl⟩

theorem agrees_constantId (value width : Value) : Agrees (Alike True ρ)
    (liftM (Workspace.uintConstantId value width) : Provision Id) (liftM (Workspace.uintConstantId value width)) Eq :=
  agrees_action (Workspace.agrees_constantId _ _)

theorem agrees_takeId : Agrees (Alike K ρ) (liftM Program.takeId : Provision Id) (liftM Program.takeId) Eq :=
  agrees_edit Program.agrees_takeId

theorem agrees_addOne (atomic : Bool) (counterType pointer one : Id) :
    Agrees (Alike True ρ) (addOne atomic counterType pointer one) (addOne atomic counterType pointer one) Eq := by
  unfold addOne
  split
  · refine (agrees_constantId _ _).seq fun scope => (agrees_constantId _ _).seq fun semantics => ?_
    exact agrees_takeId.seq fun result => .pure rfl
  · exact agrees_takeId.seq fun value => agrees_takeId.seq fun sum => .pure rfl

/-- The instructions of an increment are paired. -/
theorem agrees_increment (atomic : Bool) (index : Int) :
    Agrees (Alike True ρ) (increment atomic index) (increment atomic index) (List.Forall₂ ρ.insts) := by
  unfold increment
  refine (agrees_action Workspace.agrees_needConstants).discard.seq fun _ => ?_
  refine agrees_bufferId.seq fun buffer => agrees_pointerTypeId.seq fun pointerType => ?_
  refine agrees_counterTypeId.seq fun counterType => (agrees_constantId _ _).seq fun member => ?_
  refine (agrees_constantId _ _).seq fun index => .bind_get fun j k alike => ?_
  rw [CounterBuffer.width, CounterBuffer.width, alike.buffer.wide]
  refine (agrees_constantId _ _).seq fun one => agrees_takeId.seq fun pointer => ?_
  refine (agrees_addOne atomic counterType pointer one).seq fun rest => ?_
  refine (Agrees.mapM_same _ fun i => agrees_edit (Program.agrees_newInst i)).bind fun refs refs' listed => ?_
  exact (Agrees.forM listed fun r s _ => agrees_action (Workspace.agrees_record r s)).seq fun _ => .pure listed

end Job

end BlockTally
