import BlockTally.Draft
import BlockTally.Proofs.Program.Building

/-! Calls that write a draft.

Each call takes at most one id, and gives it to the one new instruction that can have a result. The id is lost if the
instruction cannot be placed.
-/

set_option autoImplicit false

namespace BlockTally.Draft

open Change

variable {α β : Type} {d : Draft} {i : Instruction}

/-- The calls that write instructions of their own, or move the cursor. -/
inductive Call where
  | leave
  | attach
  | function (f : Option FuncRef)
  | block (b : Option BlockRef)
  | takeId
  | capability (capability : Value)
  | extension (text : Value)
  | memoryModel (addressing memory : Value)
  | entryPoint (model : Value) (f : Option FuncRef) (text : Value) (interface : List Value)
  | executionMode (f : Option FuncRef) (mode : Value) (values : List Value)
  | name (target text : Value)
  | memberName (target member text : Value)
  | decorate (target decoration : Value) (values : List Value)
  | memberDecorate (target member decoration : Value) (values : List Value)
  | declare (opcode : Opcode) (operands : List Operand) (typeId : Id)
  | typeVoid
  | typeBool
  | typeInt (width signed : Value)
  | typeFloat (width : Value)
  | typeVector (component count : Value)
  | typeArray (element length : Value)
  | typeRuntimeArray (element : Value)
  | typeStruct (members : List Value)
  | typePointer (storage pointee : Value)
  | typeFunction (result : Value) (parameters : List Value)
  | constant (typeId : Id) (value : Value)
  | constantTrue (typeId : Id)
  | globalVariable (pointerType : Id) (storage : Value)
  | newFunction (returnType : Id) (functionType control : Value)
  | newParameter (typeId : Id)
  | newBlock
  | emit (opcode : Opcode) (typeId : Id) (operandIds : List Value)
  | localVariable (pointerType : Id)
  | load (typeId : Id) (pointer : Value)
  | store (pointer value : Value)
  | add (typeId : Id) (a b : Value)
  | call (returnType : Id) (f : Option FuncRef) (arguments : List Value)
  | selectionMerge (merge : Option BlockRef)
  | branch (target : Option BlockRef)
  | branchConditional (condition : Value) (onTrue onFalse : Option BlockRef)
  | ret
  | retValue (value : Value)

def Call.run : Call → Drafting (Option Id)
  | .leave => do Draft.leave; return none
  | .attach => do Draft.attach; return none
  | .function f => do setFunction f; return none
  | .block b => do setBlock b; return none
  | .takeId => return some (← (liftM Program.takeId : Drafting Id))
  | .capability c => do Draft.capability c; return none
  | .extension text => do Draft.extension text; return none
  | .memoryModel addressing memory => do Draft.memoryModel addressing memory; return none
  | .entryPoint model f text interface => do discard <| Draft.entryPoint model f text interface; return none
  | .executionMode f mode values => do Draft.executionMode f mode values; return none
  | .name target text => do Draft.name target text; return none
  | .memberName target member text => do Draft.memberName target member text; return none
  | .decorate target decoration values => do Draft.decorate target decoration values; return none
  | .memberDecorate target member decoration values => do
    Draft.memberDecorate target member decoration values
    return none
  | .declare opcode operands typeId => return some (← Draft.declare opcode operands typeId)
  | .typeVoid => return some (← Draft.typeVoid)
  | .typeBool => return some (← Draft.typeBool)
  | .typeInt width signed => return some (← Draft.typeInt width signed)
  | .typeFloat width => return some (← Draft.typeFloat width)
  | .typeVector component count => return some (← Draft.typeVector component count)
  | .typeArray element length => return some (← Draft.typeArray element length)
  | .typeRuntimeArray element => return some (← Draft.typeRuntimeArray element)
  | .typeStruct members => return some (← Draft.typeStruct members)
  | .typePointer storage pointee => return some (← Draft.typePointer storage pointee)
  | .typeFunction result parameters => return some (← Draft.typeFunction result parameters)
  | .constant typeId value => return some (← Draft.constant typeId value)
  | .constantTrue typeId => return some (← Draft.constantTrue typeId)
  | .globalVariable pointerType storage => return some (← Draft.globalVariable pointerType storage)
  | .newFunction returnType functionType control => do
    let f ← Draft.newFunction returnType functionType control
    return some (← functionId (some f))
  | .newParameter typeId => return some (← Draft.newParameter typeId)
  | .newBlock => do
    let b ← Draft.newBlock
    return some (← blockId (some b))
  | .emit opcode typeId operandIds => return some (← emitValue opcode typeId operandIds)
  | .localVariable pointerType => return some (← emitVariable pointerType)
  | .load typeId pointer => return some (← emitLoad typeId pointer)
  | .store pointer value => do emitStore pointer value; return none
  | .add typeId a b => return some (← emitAdd typeId a b)
  | .call returnType f arguments => return some (← emitCall returnType f arguments)
  | .selectionMerge merge => do emitSelectionMerge merge; return none
  | .branch target => do emitBranch target; return none
  | .branchConditional condition onTrue onFalse => do emitBranchConditional condition onTrue onFalse; return none
  | .ret => do emitReturn; return none
  | .retValue value => do emitReturnValue value; return none

/-- The ids that a change hands out are those it answers with. One that fails may have taken ids as well. -/
def Grants (change : Drafting α) (d : Draft) (ids : α → List Id) : Prop :=
  After change d (fun a d' => d.program.Allots (ids a) d'.program) fun _ d' => ∃ ids, d.program.Allots ids d'.program

theorem Grants.check {result : Except Error α} {next : α → Drafting β} {ids : β → List Id}
    (rest : ∀ a, Grants (next a) d ids) : Grants ((liftM result : Drafting α) >>= next) d ids :=
  After.bind (After.check (fun a _ => rest a) fun _ _ => ⟨[], .refl _⟩)

theorem Grants.discard {change : Drafting α} (h : Grants change d fun _ => []) :
    Grants (discard change) d fun _ => [] :=
  After.discard h

/-- A change that takes no id has none to answer with. -/
theorem Grants.none {change : Drafting Unit} (h : Grants change d fun _ => []) : Grants (do
    change
    return none) d Option.toList :=
  After.bind (After.mono h (fun _ _ held => After.pure held) fun _ _ failed => failed)

theorem Grants.some {change : Drafting Id} (h : Grants change d fun id => [id]) :
    Grants (do return Option.some (← change)) d Option.toList :=
  After.bind (After.mono h (fun _ _ held => After.pure held) fun _ _ failed => failed)

/-- The cursor is no part of the program. -/
theorem grants_cursor {f : Draft → Draft} (same : ∀ d, (f d).program = d.program) :
    Grants (modify f) d fun _ => [] :=
  After.modify (same d ▸ .refl _)

theorem Grants.needModule {next : Drafting β} {ids : β → List Id} (rest : Grants next d ids) :
    Grants (do
      needModule
      next) d ids := by
  unfold Draft.needModule
  refine After.bind (After.bind_get ?_)
  split
  · exact After.pure rest
  · exact After.throw ⟨[], .refl _⟩

/-! ### Instructions of the module -/

/-- An instruction without a result is listed. -/
theorem grants_list (place : Section) (noResult : i.resultId = 0) : Grants (list place i) d fun _ => [] := by
  unfold list
  refine Grants.needModule (After.within (Program.after_declare ?_))
  exact Program.Owes.appended (Instruction.ownIds_eq_nil noResult ▸ d.program.owes_none) place

theorem grants_memoryModel (addressing memory : Value) : Grants (memoryModel addressing memory) d fun _ => [] := by
  unfold memoryModel
  refine Grants.check fun a => Grants.check fun m => Grants.needModule ?_
  refine After.bind (After.within (Program.after_newInst (After.modify ?_)))
  exact d.program.owes_none.withModel

theorem grants_declare (opcode : Opcode) (operands : List Operand) (typeId : Id) :
    Grants (declare opcode operands typeId) d fun id => [id] := by
  unfold declare
  refine After.bind (After.within (Program.after_takeId (fun _ => ⟨[], .refl _⟩) fun free => ?_))
  have taken := (d.program.owes_none.take free).part (Instruction.ownIds_sublist
    { opcode, typeId, resultId := d.program.module.idBound, operands })
  unfold list needModule
  refine After.bind (After.discard (After.bind (After.bind_get ?_)))
  split
  · exact After.pure (After.within (Program.after_declare (After.pure (taken.appended .typesValues))))
  · exact After.throw ⟨_, taken.allots⟩

/-! ### Functions and blocks -/

/-- A new function or block answers with its id. -/
theorem after_functionId {f : FuncRef} {good : Option Id → Draft → Prop} {bad : Error → Draft → Prop}
    (h : good (some (d.program.functionId f)) d) :
    After (do return some (← functionId (some f)) : Drafting (Option Id)) d good bad := h

theorem after_blockId {b : BlockRef} {good : Option Id → Draft → Prop} {bad : Error → Draft → Prop}
    (h : good (some (d.program.blockId b)) d) :
    After (do return some (← blockId (some b)) : Drafting (Option Id)) d good bad := h

theorem grants_newFunction (returnType : Id) (functionType control : Value) :
    Grants (Call.newFunction returnType functionType control).run d Option.toList := by
  unfold Call.run newFunction
  refine After.bind (After.bind_get ?_)
  dsimp only
  split
  · refine After.bind (After.within (Program.after_takeId (fun _ => ⟨[], .refl _⟩) fun free => ?_))
    refine After.bind (After.check (fun number _ => ?_) fun _ _ => ⟨_, Program.allots_nextBound free⟩)
    let i : Instruction :=
      { opcode := .function, typeId := returnType, resultId := d.program.module.idBound
        operands := [⟨.functionControl, .int number⟩, .ofId functionType] }
    have taken := (d.program.owes_none.take free).part i.ownIds_sublist
    refine After.bind (After.within (Program.after_newInst ?_))
    refine After.bind (After.within (Program.after_newFunction (by rw [Program.inst_made]) ?_))
    refine After.bind (After.within (Program.after_addFunction (p := (d.program.nextBound.made i).made _) ?_))
    refine After.bind (After.modify (After.pure (after_functionId ?_)))
    let q := ((d.program.nextBound.made i).made { opcode := .functionEnd }).withFunction
      ⟨d.program.instructions.size⟩ ⟨(d.program.nextBound.made i).instructions.size⟩
    -- The id of the new function is the result of its definition, which was made of the id that was taken.
    have answer : q.functionId ⟨d.program.functions.size⟩ = d.program.module.idBound := by
      have definition : (d.program.nextBound.made i).Holds ⟨d.program.instructions.size⟩ :=
        d.program.nextBound.holds_made i
      have made : q.inst ⟨d.program.instructions.size⟩ = i :=
        (Program.inst_made_of_lt _ definition).trans (d.program.nextBound.inst_made i)
      have function : q.function ⟨d.program.functions.size⟩ = _ := Program.function_withFunction
      rw [Program.functionId, function, made]
    have allots : d.program.Allots [q.functionId ⟨d.program.functions.size⟩] q := answer ▸ taken.withFunction
    exact allots
  · exact After.throw ⟨[], .refl _⟩

theorem grants_newParameter (typeId : Id) : Grants (newParameter typeId) d fun id => [id] := by
  unfold newParameter
  refine After.bind (After.within (Program.after_takeId (fun _ => ⟨[], .refl _⟩) fun free => ?_))
  let i : Instruction := { opcode := .functionParameter, typeId, resultId := d.program.module.idBound }
  have taken := (d.program.owes_none.take free).part i.ownIds_sublist
  refine After.bind (After.within (Program.after_newInst (After.bind_get (After.bind ?_))))
  refine After.check (fun f _ => After.bind (After.within ?_)) fun _ _ => ⟨_, taken.made.allots⟩
  refine Program.after_addParameter (by rw [Program.inst_made]) (After.pure ?_)
  exact taken.withParameter f

theorem grants_newBlock : Grants Call.newBlock.run d Option.toList := by
  unfold Call.run newBlock
  refine After.bind (After.bind_get ?_)
  split
  · exact After.throw ⟨[], .refl _⟩
  next f _ =>
    refine After.bind (After.within (Program.after_takeId (fun _ => ⟨[], .refl _⟩) fun free => ?_))
    let i : Instruction := { opcode := .label, resultId := d.program.module.idBound }
    have taken := (d.program.owes_none.take free).part i.ownIds_sublist
    refine After.bind (After.within (Program.after_newInst ?_))
    refine After.bind (After.within (Program.after_newBlock (by rw [Program.inst_made]) ?_))
    refine After.bind (After.within (Program.after_addBlock (p := d.program.nextBound.made i) ?_))
    refine After.pure (after_blockId ?_)
    let q := (d.program.nextBound.made i).withBlock f ⟨d.program.instructions.size⟩
    have answer : q.blockId ⟨d.program.blocks.size⟩ = d.program.module.idBound := by
      have made : q.inst ⟨d.program.instructions.size⟩ = i := d.program.nextBound.inst_made i
      have block : (q.block ⟨d.program.blocks.size⟩).label = ⟨d.program.instructions.size⟩ := Program.label_withBlock
      rw [Program.blockId, block, made]
    have allots : d.program.Allots [q.blockId ⟨d.program.blocks.size⟩] q := answer ▸ taken.withBlock f
    exact allots

/-! ### Instructions of the block at the cursor -/

/-- An instruction is made and put into the block at the cursor. -/
theorem after_emitInst {p : Program} {own : List Id} {good : Unit → Draft → Prop} {bad : Error → Draft → Prop}
    (owes : p.Owes own d.program i.ownIds) (emitted : ∀ d', p.Allots own d'.program → good () d')
    (failed : ∀ e d', p.Allots own d'.program → bad e d') : After (emitInst i) d good bad := by
  unfold emitInst emit
  refine After.bind (After.within (Program.after_newInst (After.bind_get ?_)))
  split
  · exact After.throw (failed _ _ owes.made.allots)
  · refine After.within (Program.after_addInst (emitted _ ?_))
    exact owes.made.inserted (d.program.hold_made i) _ _

theorem grants_emitInst (noResult : i.resultId = 0) : Grants (emitInst i) d fun _ => [] :=
  after_emitInst (Instruction.ownIds_eq_nil noResult ▸ d.program.owes_none) (fun _ allots => allots)
    fun _ _ allots => ⟨[], allots⟩

theorem grants_emitResult (opcode : Opcode) (typeId : Id) (operands : List Operand) :
    Grants (emitResult opcode typeId operands) d fun id => [id] := by
  unfold emitResult
  refine After.bind (After.within (Program.after_takeId (fun _ => ⟨[], .refl _⟩) fun free => ?_))
  have taken := (d.program.owes_none.take free).part (Instruction.ownIds_sublist
    { opcode, typeId, resultId := d.program.module.idBound, operands })
  exact After.bind (after_emitInst taken (fun _ allots => After.pure allots) fun _ _ allots => ⟨_, allots⟩)

/-! ### All calls -/

theorem grants_functionId {f : Option FuncRef} {next : Id → Drafting α} {ids : α → List Id}
    (rest : ∀ id, Grants (next id) d ids) : Grants (functionId f >>= next) d ids :=
  After.bind (After.bind_get (After.bind (After.check (fun _ _ => After.pure (rest _)) fun _ _ => ⟨[], .refl _⟩)))

theorem grants_blockId {b : Option BlockRef} {next : Id → Drafting α} {ids : α → List Id}
    (rest : ∀ id, Grants (next id) d ids) : Grants (blockId b >>= next) d ids :=
  After.bind (After.bind_get (After.bind (After.check (fun _ _ => After.pure (rest _)) fun _ _ => ⟨[], .refl _⟩)))

/-- Each call answers with the ids that it hands out. -/
theorem Call.grants (call : Call) : Grants call.run d Option.toList := by
  cases call with
  | leave | attach | function | block => exact (grants_cursor fun _ => rfl).none
  | takeId =>
    refine Grants.some (After.within (Program.after_takeId (fun _ => ⟨[], .refl _⟩) fun free => ?_))
    exact Program.allots_nextBound free
  | capability =>
    exact Grants.none (Grants.needModule (Grants.check fun _ => (grants_list _ rfl).discard))
  | extension | name | memberName => exact (grants_list _ rfl).discard.none
  | memoryModel => exact (grants_memoryModel _ _).none
  | entryPoint =>
    exact Grants.none (Grants.discard (Grants.check fun _ => grants_functionId fun _ => grants_list _ rfl))
  | executionMode =>
    exact Grants.none (grants_functionId fun _ => Grants.check fun _ => (grants_list _ rfl).discard)
  | decorate | memberDecorate => exact Grants.none (Grants.check fun _ => (grants_list _ rfl).discard)
  | declare | typeVoid | typeBool | typeFloat | typeVector | typeArray | typeRuntimeArray | typeStruct | typeFunction
  | constant | constantTrue => exact (grants_declare _ _ _).some
  | typeInt | typePointer | globalVariable => exact Grants.some (Grants.check fun _ => grants_declare _ _ _)
  | newFunction => exact grants_newFunction _ _ _
  | newParameter => exact (grants_newParameter _).some
  | newBlock => exact grants_newBlock
  | emit | localVariable | load | add => exact (grants_emitResult _ _ _).some
  | call => exact Grants.some (grants_functionId fun _ => grants_emitResult _ _ _)
  | store | ret | retValue => exact (grants_emitInst rfl).none
  | selectionMerge | branch => exact Grants.none (grants_blockId fun _ => grants_emitInst rfl)
  | branchConditional =>
    exact Grants.none (grants_blockId fun _ => grants_blockId fun _ => grants_emitInst rfl)

end BlockTally.Draft
