import BlockTally.Proofs.Workspace.Requests

/-! What counters take, turn by turn.

To provide a buffer takes steps aside and the declaration of a variable besides what is asked for. The instructions of
an increment are made and recorded as well, and take ids of their own.
-/

set_option autoImplicit false

namespace BlockTally.Workspace

open Account Contract

inductive Turn (lengths : Value → Prop) (texts : Set Value) (w : Workspace) : Workspace → Prop where
  | ask {w' : Workspace} (ask : Ask lengths w w') : Turn lengths texts w w'
  | aside {targets : Set Value} {w' : Workspace} (aside : w.Aside texts targets w') : Turn lengths texts w w'
  /-- A global variable is declared under the next id. -/
  | global {i : Instruction} (free : w.program.module.idBound < maxIdBound)
      (result : i.resultId = w.program.module.idBound) (var : i.opcode = .var)
      (used : ∀ v ∈ i.usedIds, ∃ id, v = .int id ∧ w.HoldsType id) :
      Turn lengths texts w
        ({ w with program := w.program.nextBound.made i }.listed .typesValues ⟨w.program.instructions.size⟩)

/-- Turns of some kind, and those that make the instructions of an increment. -/
inductive Making (turn : Workspace → Workspace → Prop) (w : Workspace) : Workspace → Prop where
  | turn {w' : Workspace} (turned : turn w w') : Making turn w w'
  | take (free : w.program.module.idBound < maxIdBound) : Making turn w { w with program := w.program.nextBound }
  | make (i : Instruction) : Making turn w { w with program := w.program.made i }
  | record (r : InstRef) : Making turn w
      { w with facts := { w.facts with uses := w.facts.uses.map fun u => u.record r (w.program.inst r) } }

def turns (lengths : Value → Prop) (texts : Set Value) : Account Workspace :=
  walk (Turn lengths texts) Loses

def making (turn : Workspace → Workspace → Prop) : Account Workspace :=
  walk (Making turn) Loses

variable {α : Type} {lengths : Value → Prop} {texts targets : Set Value} {w w' : Workspace} {change : Action α}
  {post : α → Workspace → Prop} {turn : Workspace → Workspace → Prop}

theorem turns_of_asks (h : (asks lengths).Keeps change w post) : (turns lengths texts).Keeps change w post :=
  h.walk_mono .ask

theorem turns_of_asides (h : (asides texts targets).Keeps change w post) :
    (turns lengths texts).Keeps change w post :=
  keeps_of_inSteps (fun _ aside => .single (.aside aside)) h

theorem Turn.step (turn : Turn lengths texts w w') : w.Step texts w' := by
  cases turn with
  | ask ask => exact ask.step
  | aside aside => exact .aside aside
  | global free result => exact .declare free result

theorem steps_of_turns (h : (turns lengths texts).Keeps change w post) : (steps texts).Keeps change w post :=
  h.walk_mono Turn.step

theorem Sizes.asks (h : Sizes (turns lengths texts) lengths w) : Sizes (asks lengths) lengths w :=
  h.imp_right fun finds _ move => finds _ (walk_moves_mono .ask move)

theorem turns_declareBufferVariable {pointerType : Id} (typed : w.HoldsType pointerType) :
    (turns lengths texts).Keeps (declareBufferVariable pointerType) w fun _ _ => True := by
  unfold declareBufferVariable
  refine Change.After.bind (after_takeId (fun _ => ⟨w, .refl, .refl⟩) fun free => ?_)
  refine Change.After.bind (after_newInst (Change.After.bind (after_listed ?_)))
  refine Change.After.pure ⟨.single (.global free rfl rfl fun v used => ⟨pointerType, ?_, typed⟩), True.intro⟩
  -- The storage class is no id.
  have own : v ∈ (if pointerType != 0 then [Value.int pointerType] else []) ++ [] := used
  rw [if_pos (bne_iff_ne.mpr typed.1)] at own
  exact List.mem_singleton.mp own

/-! ### The instructions of an increment -/

theorem making_takeId : (making turn).Keeps (liftM Program.takeId : Action Id) w fun _ _ => True :=
  after_takeId (fun _ => ⟨w, .refl, .refl⟩) fun free => ⟨.single (.take free), True.intro⟩

theorem making_newInst (i : Instruction) :
    (making turn).Keeps (liftM (Program.newInst i) : Action InstRef) w fun _ _ => True :=
  after_newInst ⟨.single (.make i), True.intro⟩

theorem making_record (r : InstRef) : (making turn).Keeps (record r) w fun _ _ => True :=
  Change.After.modify ⟨.single (.record r), True.intro⟩

end BlockTally.Workspace
