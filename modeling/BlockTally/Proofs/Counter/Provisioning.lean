import BlockTally.Proofs.Counter.BufferFeatures
import BlockTally.Proofs.Counter.Outcome
import BlockTally.Proofs.Counter.Pairing
import BlockTally.Proofs.Session

/-! Provisioning happens once.

The first request for the buffer variable declares it with all that it demands. Later requests find the variable there
and leave all this alone, and so does a run, which asks for the variable again for every block.
-/

set_option autoImplicit false

namespace BlockTally

open Change Account Contract

namespace Workspace

variable {w w' : Workspace} {t : TypeTable}

theorem facts_of_needTypes (read : needTypes w = .ok t w') : w'.facts.types = some t ∧ w'.program = w.program := by
  have asked : (asks fun _ => True).Keeps needTypes w _ := asks_needTypes
  have held := After.of_ok asked read
  exact ⟨held.2.1, held.2.2.1⟩

theorem needTypes_again (read : needTypes w = .ok t w') : needTypes w' = .ok t w' :=
  needTypes_of_found (facts_of_needTypes read).1

theorem typeId_of_read (read : needTypes w = .ok t w') (ty : Ty) : typeId ty w = typeId ty w' :=
  typeId_congr_of_read read (needTypes_again read) ty

theorem typeId_of_unread {e : Error} (failed : needTypes w = .error e w') (ty : Ty) : typeId ty w = .error e w' := by
  have known (make : Action Id) : known ty make w = .error e w' := by
    unfold Workspace.known
    rw [bind_of_error failed]
  cases ty <;> unfold typeId <;> exact known _

theorem needConstants_of_read (unread : w.facts.constants = none) (read : needTypes w = .ok t w') :
    ∃ c, needConstants w = .ok c { w' with facts := { w'.facts with constants := some c } } := by
  unfold needConstants
  rw [get_bind, unread]
  dsimp only
  rw [bind_of_ok read]
  exact ⟨_, rfl⟩

end Workspace

namespace Job

open Workspace (Then)

variable {α : Type} {lengths : Value → Prop} {p : Program} {wide : Bool} {v : Id} {j j' : Job}

def resting : Contract Job where
  moves j j' := Workspace.resting.moves j.workspace j'.workspace ∧ j'.buffer.variableId = j.buffer.variableId
  exhausted _ := True
  refl j := ⟨Workspace.resting.refl j.workspace, rfl⟩
  trans first second := ⟨Workspace.resting.trans first.1 second.1, second.2.trans first.2⟩

theorem resting_of_making {change : Provision α} {post : α → Job → Prop}
    (h : (pointing (Workspace.making (Workspace.Ask lengths))).Keeps change j post) : resting.Keeps change j post :=
  h.into (fun _ move => ⟨Workspace.resting_of_making move.1, by rw [move.2]⟩)
    fun _ _ failed => ⟨⟨Workspace.resting_of_fails failed.1, by rw [failed.2]⟩, fun _ => True.intro⟩

theorem resting_of_asks {change : Provision α} {post : α → Job → Prop}
    (h : (pointing (Workspace.asks lengths)).Keeps change j post) : resting.Keeps change j post :=
  resting_of_making (making_of_asks id h)

theorem resting_asks {action : Action α} {post : α → Workspace → Prop}
    (h : (Workspace.asks fun _ => True).Keeps action j.workspace post) :
    resting.Keeps (liftM action : Provision α) j fun a j' => post a j'.workspace :=
  resting_of_asks (pointing_lift h)

/-- What is only known of an answer of the workspace. -/
theorem after_lift {action : Action α} {post : α → Workspace → Prop} (h : Then action j.workspace post) :
    After (liftM action : Provision α) j (fun a j' => post a j'.workspace) fun _ _ => True :=
  After.within h

theorem after_rest {change : Provision α} {post : α → Job → Prop} (h : resting.Keeps change j post) :
    After change j (fun _ j' => resting.moves j j') fun _ _ => True :=
  After.mono h (fun _ _ held => held.1) fun _ _ _ => True.intro

/-! ### The first request -/

structure Rested (p : Program) (j : Job) : Prop where
  filed : j.workspace.Filed
  rests : p.Rests j.workspace.program

theorem Rested.move (h : Rested p j) (move : resting.moves j j') : Rested p j' := by
  obtain ⟨filed, rests⟩ := move.1 h.filed
  exact ⟨filed, h.rests.trans rests⟩

structure Served (p : Program) (wide : Bool) (v : Id) (j : Job) : Prop where
  filed : j.workspace.Filed
  provisioned : p.Provisioned wide v j.workspace.program
  variableId : j.buffer.variableId = v

theorem Served.move (h : Served p wide v j) (move : resting.moves j j') : Served p wide v j' := by
  obtain ⟨filed, rests⟩ := move.1 h.filed
  exact ⟨filed, h.provisioned.rests rests, move.2.trans h.variableId⟩

theorem supplies_declareVariable (filed : p.Filed) (distinct : p.module.entryPoints.Nodup) (h : Rested p j)
    (wide : Bool) (bufferType : Id) : After (declareVariable wide bufferType) j
      (fun id j' => Workspace.Supplies p id p.newExtensions (p.newCapabilities wide) p.newInterfaces j'.workspace)
      fun _ _ => True := by
  unfold declareVariable
  have typed := resting_asks (j := j)
    (Workspace.asks_pointerId (.int bufferType) (.int StorageClass.storageBuffer) .any)
  refine After.bind (After.mono (after_rest typed) (fun pointerType j₁ move => ?_) fun _ _ _ => True.intro)
  have h₁ := h.move move
  refine After.bind (After.mono (after_lift (Workspace.supplies_declareBufferVariable h₁.filed h₁.rests pointerType))
    (fun id j₂ supplies => ?_) fun _ _ _ => True.intro)
  -- The names and decorations are no features, so nothing is supplied by them.
  have named : Then (Workspace.addBufferNames (.int bufferType) (.int id)) j₂.workspace
      fun _ w => Workspace.Supplies p id [] [] [] w :=
    After.mono (Workspace.resting_addBufferNames _ _) (fun _ _ held => supplies.rests held.1) fun _ _ _ => True.intro
  refine After.bind (After.mono (after_lift named) (fun _ j₃ supplies => ?_) fun _ _ _ => True.intro)
  have decorated {j : Job} (supplies : Workspace.Supplies p id [] [] [] j.workspace) (d : Decoration) :
      After (discard (Workspace.decorate (.int id) d) : Provision Unit) j
        (fun _ j' => Workspace.Supplies p id [] [] [] j'.workspace) fun _ _ => True := by
    have kept := resting_asks (j := j) (Workspace.asks_of_notes (Workspace.notes_decorate (.int id) d))
    refine After.discard (After.mono (after_rest kept) (fun _ _ move => supplies.rests move.1) fun _ _ _ => True.intro)
  refine After.bind (After.mono (decorated supplies _) (fun _ j₄ supplies => ?_) fun _ _ _ => True.intro)
  refine After.bind (After.mono (decorated supplies _) (fun _ j₅ supplies => ?_) fun _ _ _ => True.intro)
  have extended := Workspace.supplies_provideExtension filed supplies
  refine After.bind (After.mono (after_lift extended) (fun _ j₆ supplies => ?_) fun _ _ _ => True.intro)
  have ending {j : Job} {capabilities : List Instruction}
      (supplies : Workspace.Supplies p id p.newExtensions capabilities [] j.workspace) : After (listVariable id) j
        (fun id j' => Workspace.Supplies p id p.newExtensions capabilities p.newInterfaces j'.workspace)
        fun _ _ => True :=
    After.bind (After.mono (after_lift (Workspace.supplies_extendInterfaces filed distinct supplies))
      (fun _ _ supplies => After.pure supplies) fun _ _ _ => True.intro)
  cases wide with
  | true =>
    have widened := Workspace.supplies_provideWideCounters filed supplies
    exact After.bind (After.mono (after_lift widened) (fun _ _ supplies => ending supplies) fun _ _ _ => True.intro)
  | false => exact ending supplies

/-- The first request declares the variable with what it demands. -/
theorem served_bufferId (filed : j.workspace.Filed) (distinct : j.workspace.program.module.entryPoints.Nodup)
    (first : j.buffer.variableId = 0) : After bufferId j
      (fun v j' => Served j.workspace.program j.buffer.wide v j') fun _ _ => True := by
  have declare : After declareBuffer j (fun id j' => Workspace.Supplies j.workspace.program id
      j.workspace.program.newExtensions (j.workspace.program.newCapabilities j.buffer.wide)
      j.workspace.program.newInterfaces j'.workspace) fun _ _ => True := by
    rw [declareBuffer_eq]
    refine After.bind_get ?_
    have typed := resting_asks (j := j) (Workspace.asks_typeId j.buffer.bufferType fun _ _ => True.intro)
    refine After.bind (After.mono (after_rest typed) (fun bufferType j₁ move₁ => ?_) fun _ _ _ => True.intro)
    have used := resting_asks (j := j₁) (Workspace.asks_of_finds Workspace.finds_needUses)
    refine After.bind (After.mono (after_rest used) (fun uses j₂ move₂ => ?_) fun _ _ _ => True.intro)
    have h₂ : Rested j.workspace.program j₂ := (Rested.mk filed (.refl _)).move (resting.trans move₁ move₂)
    dsimp only
    split
    · refine After.bind (After.modify (supplies_declareVariable filed.lists distinct ?_ _ _))
      -- The note about an unused type leaves the workspace alone.
      exact ⟨h₂.filed, h₂.rests⟩
    · exact supplies_declareVariable filed.lists distinct h₂ _ _
  unfold bufferId
  refine After.bind_get ?_
  dsimp only
  rw [if_neg (fun some => some first)]
  refine After.bind (After.mono declare (fun id j₁ supplies => ?_) fun _ _ _ => True.intro)
  exact After.bind (After.modify (After.pure ⟨supplies.filed, supplies.supplied, rfl⟩))

/-! ### Further requests -/

theorem bufferId_of_declared (declared : j.buffer.variableId ≠ 0) : bufferId j = .ok j.buffer.variableId j := by
  unfold bufferId
  rw [get_bind]
  exact congrFun (if_pos declared) j

theorem resting_provided (declared : j.buffer.variableId ≠ 0) (request : Session.Provided) :
    resting.Keeps request.run j fun _ _ => True := by
  have silent {request : Provision Id} (h : resting.Keeps request j fun _ _ => True) :
      resting.Keeps (do discard request; return none : Provision (Option Id)) j fun _ _ => True :=
    h.discard.seq fun _ _ _ => Keeps.pure True.intro
  cases request with
  | buffer => exact silent (After.ran (bufferId_of_declared declared) ⟨resting.refl j, True.intro⟩)
  | pointerType => exact silent (resting_of_asks (asks_pointerTypeId .any))
  | counterType =>
    have asked : (pointing (Workspace.asks fun _ => True)).Keeps counterTypeId j _ := asks_counterTypeId
    exact silent (resting_of_asks asked).trivial

theorem resting_requests (declared : j.buffer.variableId ≠ 0) (requests : List Session.Provided) :
    resting.moves j (requests.foldl (fun j request => finalState (request.run j)) j) := by
  induction requests generalizing j with
  | nil => exact resting.refl j
  | cons request rest ih =>
    have move : resting.moves j (finalState (request.run j)) :=
      After.finalState (After.mono (resting_provided declared request) (fun _ _ held => held.1) fun _ _ held => held.1)
    exact resting.trans move (ih (by rwa [move.2]))

theorem resting_fill (atomic : Bool) (traceIndex : Int) (buffer : Id) :
    resting.Keeps (fill atomic traceIndex buffer) j fun _ _ => True :=
  resting_of_making (making_fill .any atomic traceIndex buffer)

theorem resting_increment (declared : j.buffer.variableId ≠ 0) (atomic : Bool) (traceIndex : Int) :
    resting.Keeps (increment atomic traceIndex) j fun _ _ => True := by
  rw [increment_eq]
  refine (resting_asks Workspace.asks_needConstants).discard.seq fun _ j₁ move => ?_
  exact Change.After.bind (.ran (bufferId_of_declared (move.2 ▸ declared)) (resting_fill atomic traceIndex _))

/-! ### The first request of a run

The constants are read before it. That reads the types, as the request does itself, and makes no difference to it. -/

theorem bufferId_of_first (first : j.buffer.variableId = 0) : bufferId j = (do
    let id ← declareBuffer
    changeBuffer fun b => { b with variableId := id }
    return id : Provision Id) j := by
  unfold bufferId
  rw [get_bind]
  exact congrFun (if_neg fun some => some first) j

/-- The first request goes on from the types. -/
theorem bufferId_of_read {t : TypeTable} {w : Workspace} (first : j.buffer.variableId = 0)
    (read : Workspace.needTypes j.workspace = .ok t w) : bufferId j = bufferId { j with workspace := w } := by
  have same := Workspace.typeId_of_read read j.buffer.bufferType
  have typed : (liftM (Workspace.typeId j.buffer.bufferType) : Provision Id) j =
      (liftM (Workspace.typeId j.buffer.bufferType) : Provision Id) { j with workspace := w } :=
    within_congr_of_eq same rfl
  rw [bufferId_of_first first, bufferId_of_first (j := { j with workspace := w }) first]
  refine bind_congr_of_eq ?_
  unfold declareBuffer
  rw [get_bind, get_bind]
  exact bind_congr_of_eq typed

theorem exists_read_of_bufferId (first : j.buffer.variableId = 0) (done : bufferId j = .ok v j') :
    ∃ t w, Workspace.needTypes j.workspace = .ok t w := by
  cases read : Workspace.needTypes j.workspace with
  | ok t w => exact ⟨t, w, rfl⟩
  | error e w =>
    have failed : (liftM (Workspace.typeId j.buffer.bufferType) : Provision Id) j =
        .error e { j with workspace := w } :=
      Change.within_error _ _ _ _ _ _ (Workspace.typeId_of_unread read _)
    have declined : declareBuffer j = .error e { j with workspace := w } := by
      unfold declareBuffer
      rw [get_bind]
      exact bind_of_error failed
    rw [bufferId_of_first first, bind_of_error declined] at done
    cases done

/-- What is known of constants makes no difference. -/
theorem alike_constants (j : Job) (c : ConstantTable) : Alike False (.same j.workspace.program.blocks.size) j
    { j with workspace.facts.constants := some c } where
  workspace :=
    { program := .refl _
      annotations := by
        cases j.workspace.facts.annotations with
        | none => exact .none
        | some a => exact .some fun target => List.forall₂_eq_eq_eq ▸ rfl
      types := rfl
      constants := False.elim
      features := rfl }
  buffer := ⟨rfl, rfl, rfl⟩

/-- After the constants are read, the first request is answered as without that. -/
theorem bufferId_after_needConstants (first : j.buffer.variableId = 0) (unread : j.workspace.facts.constants = none)
    (done : bufferId j = .ok v j') : ∃ c j₁ j₂, (liftM Workspace.needConstants : Provision ConstantTable) j = .ok c j₁ ∧
      j₁.workspace.program = j.workspace.program ∧ j₁.buffer = j.buffer ∧ bufferId j₁ = .ok v j₂ := by
  obtain ⟨t, w, read⟩ := exists_read_of_bufferId first done
  have program := (Workspace.facts_of_needTypes read).2
  obtain ⟨c, constants⟩ := Workspace.needConstants_of_read unread read
  rw [bufferId_of_read first read] at done
  let j₁ : Job := { j with workspace := { w with facts := { w.facts with constants := some c } } }
  have agrees := agrees_bufferId _ _ (alike_constants { j with workspace := w } c)
  rw [done] at agrees
  generalize again : bufferId _ = result at agrees
  cases agrees with
  | ok same _ => exact ⟨c, j₁, _, Change.within_ok _ _ _ _ _ _ constants, program, rfl, same ▸ again⟩

/-! ### Runs -/

/-- A job that has not begun yet, or whose variable is provided. -/
def Stage (p : Program) (wide : Bool) (v : Id) (j : Job) : Prop :=
  j = { workspace := { program := p }, buffer := { wide } } ∨ Served p wide v j

def providing (p : Program) (wide : Bool) (v : Id) : Contract Job where
  moves j j' := Stage p wide v j → Stage p wide v j'
  exhausted _ := True
  refl _ := id
  trans first second := second ∘ first

theorem served_increment (closed : p.Closed) (distinct : p.module.entryPoints.Nodup) (nonzero : v ≠ 0)
    (done : bufferId { workspace := { program := p }, buffer := { wide } } = .ok v j') (stage : Stage p wide v j)
    (atomic : Bool) (traceIndex : Int) :
    After (increment atomic traceIndex) j (fun _ j' => Served p wide v j') fun _ j' => Served p wide v j' := by
  have later {α : Type} {j : Job} {change : Provision α} {post : α → Job → Prop} (served : Served p wide v j)
      (h : resting.Keeps change j post) :
      After change j (fun _ j' => Served p wide v j') fun _ j' => Served p wide v j' :=
    After.mono h (fun _ _ held => served.move held.1) fun _ _ held => served.move held.1
  rcases stage with rfl | served
  · obtain ⟨c, j₁, j₂, constants, program, buffer, answered⟩ := bufferId_after_needConstants rfl rfl done
    have move : resting.moves _ j₁ := (After.of_ok (resting_asks Workspace.asks_needConstants) constants).1
    have filed : j₁.workspace.Filed := (move.1 ⟨closed.filed, nofun⟩).1
    have served : Served p wide v j₂ := by
      have held := After.of_ok (served_bufferId filed (program ▸ distinct) (by rw [buffer])) answered
      rwa [program, buffer] at held
    rw [increment_eq]
    refine After.bind (After.discard (After.ran constants (After.bind (After.ran answered ?_))))
    exact later served (resting_fill atomic traceIndex v)
  · exact later served (resting_increment (served.variableId ▸ nonzero) atomic traceIndex)

theorem Served.inserted (h : Served p wide v j) (b : BlockRef) (gap : Nat) (refs : List InstRef) :
    Served p wide v { j with workspace.program := j.workspace.program.inserted b gap refs } := by
  have rests := j.workspace.program.rests_inserted b gap refs
  have module := @Program.module_inserted j.workspace.program b gap refs
  refine ⟨⟨fun place r member => rests.holds r (h.filed.lists place r ?_), fun f known => ?_⟩,
    h.provisioned.rests rests, h.variableId⟩
  · rwa [← module]
  · refine (h.filed.features f known).extended rests.capabilities rests.extensions fun place r member => ⟨[], ?_⟩
    rw [Instruction.extended_nil]
    exact rests.inst r (h.filed.lists place r member)

end Job

namespace Run

variable {σ : Type} {p : Program} {wide : Bool} {v : Id} {j : Job}

theorem carries_providing (closed : p.Closed) (distinct : p.module.entryPoints.Nodup) (nonzero : v ≠ 0)
    (done : Job.bufferId { workspace := { program := p }, buffer := { wide } } = .ok v j) :
    Carries (Job.providing p wide v) where
  lenient _ := True.intro
  increment j atomic traceIndex := by
    by_cases stage : Job.Stage p wide v j
    · refine After.mono (Job.served_increment closed distinct nonzero done stage atomic traceIndex) ?_ ?_
      · exact fun _ j' served => ⟨fun _ => .inr served, fun b gap refs _ => .inr (served.inserted b gap refs)⟩
      · exact fun _ j' served => ⟨fun _ => .inr served, fun _ => True.intro⟩
    · refine After.mono (.trivial _ _) (fun _ _ _ => ?_) fun _ _ _ => ?_
      · exact ⟨fun held => absurd held stage, fun _ _ _ held => absurd held stage⟩
      · exact ⟨fun held => absurd held stage, fun _ => True.intro⟩

/-- A run leaves the program alone until it provides the buffer, and it does so only once. -/
theorem provisioned_of_run (closed : p.Closed) (distinct : p.module.entryPoints.Nodup) (nonzero : v ≠ 0)
    (done : Job.bufferId { workspace := { program := p }, buffer := { wide } } = .ok v j) (settings : Settings)
    {hooks : Hooks σ} (quiet : hooks.Quiet) (r : Run σ) (starts : r.program = p) (same : settings.wide = wide) :
    (finalState (run settings hooks r)).program = p ∨
      p.Provisioned wide v (finalState (run settings hooks r)).program := by
  have begun : Job.Stage p wide v (prepare settings r).job := by
    subst starts same
    exact .inl rfl
  have either {j : Job} (stage : Job.Stage p wide v j) :
      j.workspace.program = p ∨ p.Provisioned wide v j.workspace.program :=
    stage.imp (fun fresh => by rw [fresh]) Job.Served.provisioned
  have ran := (carries_providing closed distinct nonzero done).run settings quiet (r := r)
  have ends : After (run settings hooks) r (fun _ r' => r'.program = p ∨ p.Provisioned wide v r'.program)
      fun _ r' => r'.program = p ∨ p.Provisioned wide v r'.program := by
    refine After.mono ran ?_ fun _ r' held => either (held.1 begun)
    rintro _ r' ⟨⟨j', moves, job⟩, -⟩
    rw [show r'.program = j'.workspace.program from congrArg (·.workspace.program) job]
    exact either (moves begun)
  exact ends.finalState

end Run

namespace Job

/-- The first request provides the variable with exactly what the version and the width demand. Later requests add no
feature, interface or variable, and a run with counters of that width provides the same, and once at most. -/
theorem provisioned_once {p : Program} {wide : Bool} {v : Id} {j : Job} (closed : p.Closed)
    (distinct : p.module.entryPoints.Nodup)
    (done : bufferId { workspace := { program := p }, buffer := { wide } } = .ok v j) (nonzero : v ≠ 0) :
    p.Provisioned wide v j.workspace.program ∧
      (∀ requests : List Session.Provided, j.workspace.program.Rests
        (requests.foldl (fun j request => finalState (request.run j)) j).workspace.program) ∧
      ∀ (σ : Type) (settings : Settings) (hooks : Hooks σ) (r : Run σ), hooks.Quiet → r.program = p →
        settings.wide = wide → (finalState (Run.run settings hooks r)).program = p ∨
          p.Provisioned wide v (finalState (Run.run settings hooks r)).program := by
  have served := After.of_ok (served_bufferId (j := { workspace := { program := p }, buffer := { wide } })
    ⟨closed.filed, nofun⟩ distinct rfl) done
  refine ⟨served.provisioned, fun requests => ?_, fun σ settings hooks r quiet starts same => ?_⟩
  · exact ((resting_requests (served.variableId ▸ nonzero) requests).1 served.filed).2
  · exact Run.provisioned_of_run closed distinct nonzero done settings quiet r starts same

def lateSample : Program :=
  { Run.sample 8 with module.version := Version.v1_4 }

theorem provisioned_once_sample : ∃ j,
    bufferId { workspace := { program := lateSample }, buffer := { wide := true } } = .ok 12 j ∧
      lateSample.Provisioned true 12 j.workspace.program ∧ lateSample.newCapabilities true ≠ [] ∧
      (j.workspace.program.inst ⟨2⟩).operands.length = 4 := by
  have done := eq_ok_of_answer (by decide +kernel :
    answer? (bufferId { workspace := { program := lateSample }, buffer := { wide := true } }) = some 12)
  have once := provisioned_once (by decide +kernel) (by decide) done (by decide)
  exact ⟨_, done, once.1, by decide +kernel, by decide +kernel⟩

end Job

end BlockTally
