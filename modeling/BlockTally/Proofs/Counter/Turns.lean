import BlockTally.Proofs.Counter.Run
import BlockTally.Proofs.Workspace.Turns

/-! The provision of counters, turn by turn.

What an increment refers to is asked for and provided, and then it is put together from new instructions, which nothing
lists yet. What every turn keeps is kept by all runs, as long as it is not lost when increments are put into their
blocks.
-/

set_option autoImplicit false

namespace BlockTally

open Account Contract

namespace Job

/-- The workspace goes by an account, and of the buffer only the pointer type is looked up. -/
def pointing (A : Account Workspace) : Account Job where
  moves j j' := A.moves j.workspace j'.workspace ∧
    j'.buffer = { j.buffer with pointerTypeId := j'.buffer.pointerTypeId }
  fails j e j' := A.fails j.workspace e j'.workspace ∧
    j'.buffer = { j.buffer with pointerTypeId := j'.buffer.pointerTypeId }
  refl j := ⟨A.refl j.workspace, rfl⟩
  trans first second := ⟨A.trans first.1 second.1, by rw [second.2, first.2]⟩
  later first failed := ⟨A.later first.1 failed.1, by rw [failed.2, first.2]⟩
  refuses other := ⟨A.refuses other, rfl⟩

inductive Turn (turn : Workspace → Workspace → Prop) (j : Job) : Job → Prop where
  | work {w : Workspace} (turned : turn j.workspace w) : Turn turn j { j with workspace := w }
  | settle {b : CounterBuffer} (same : b.unusedTypes = j.buffer.unusedTypes) : Turn turn j { j with buffer := b }
  /-- A decorated type is found to have no uses. -/
  | overlook {id : Id} {ty : Ty} {u : Uses} (stands : j.workspace.StandsAs id ty) (decorated : ty.decorations ≠ [])
      (found : j.workspace.facts.uses = some u) (unused : u.usesOf (.int id) = []) :
      Turn turn j { j with buffer := { j.buffer with unusedTypes := j.buffer.unusedTypes ++ [id] } }

inductive Loses (j : Job) : Job → Prop where
  | work {w : Workspace} (lost : j.workspace.Loses w) : Loses j { j with workspace := w }

def turns (turn : Workspace → Workspace → Prop) : Account Job :=
  walk (Turn turn) Loses

variable {α : Type} {lengths : Value → Prop} {texts : Set Value} {A : Account Workspace}
  {turn : Workspace → Workspace → Prop} {j j' : Job} {change : Provision α}

/-- The turns of the workspace in any turns. -/
theorem workspace_of_turns (h : (turns turn).moves j j') : Relation.ReflTransGen turn j.workspace j'.workspace := by
  induction h with
  | refl => exact .refl
  | tail _ turned ih =>
    cases turned with
    | work turned => exact ih.tail turned
    | settle | overlook => exact ih

theorem workspace_of_fails {e : Error} (h : (turns turn).fails j e j') :
    (walk turn Workspace.Loses).fails j.workspace e j'.workspace := by
  obtain ⟨u, walked, ended⟩ := h
  refine ⟨u.workspace, workspace_of_turns walked, ?_⟩
  cases ended with
  | refl => exact .refl
  | single lost =>
    cases lost with
    | work lost => exact .single lost

theorem Turn.mono {turn' : Workspace → Workspace → Prop} (turned : Turn turn j j')
    (each : ∀ {w w'}, turn w w' → turn' w w') : Turn turn' j j' := by
  cases turned with
  | work turned => exact .work (each turned)
  | settle same => exact .settle same
  | overlook stands decorated found unused => exact .overlook stands decorated found unused

theorem turns_work {w : Workspace} (h : Relation.ReflTransGen turn j.workspace w) :
    (turns turn).moves j { j with workspace := w } := by
  induction h with
  | refl => exact .refl
  | tail _ turned ih => exact ih.tail (.work turned)

theorem turns_lift {action : Action α} {post : α → Workspace → Prop}
    (h : (walk turn Workspace.Loses).Keeps action j.workspace post) :
    (turns turn).Keeps (liftM action : Provision α) j fun a j' => post a j'.workspace := by
  refine Account.Keeps.part h (fun _ => turns_work) (fun e w failed => ?_) fun _ _ _ held => held
  obtain ⟨u, walked, ended⟩ := failed
  refine ⟨{ j with workspace := u }, turns_work walked, ?_⟩
  cases ended with
  | refl => exact .refl
  | single lost => exact .single (.work lost)

theorem moves_of_pointing {step : Workspace → Workspace → Prop} (each : ∀ {w w'}, step w w' → turn w w')
    (h : (pointing (walk step Workspace.Loses)).moves j j') : (turns turn).moves j j' := by
  have last : (turns turn).moves { j with workspace := j'.workspace } j' :=
    .single (.settle (b := j'.buffer) (by rw [h.2]))
  exact (turns_work (walk_moves_mono each h.1)).trans last

theorem fails_of_pointing {step : Workspace → Workspace → Prop} {e : Error} (each : ∀ {w w'}, step w w' → turn w w')
    (h : (pointing (walk step Workspace.Loses)).fails j e j') : (turns turn).fails j e j' := by
  obtain ⟨⟨u, walked, ended⟩, buffer⟩ := h
  have move : (pointing (walk step Workspace.Loses)).moves j { workspace := u, buffer := j'.buffer } := ⟨walked, buffer⟩
  refine ⟨_, moves_of_pointing each move, ?_⟩
  obtain ⟨w, b⟩ := j'
  cases ended with
  | refl => exact .refl
  | single lost => exact .single (.work lost)

/-! ### What an increment asks for -/

theorem pointing_lift {action : Action α} {post : α → Workspace → Prop} (h : A.Keeps action j.workspace post) :
    (pointing A).Keeps (liftM action : Provision α) j fun a j' => post a j'.workspace :=
  Account.Keeps.part h (fun _ move => ⟨move, rfl⟩) (fun _ _ failed => ⟨failed, rfl⟩) fun _ _ _ held => held

theorem asks_counterTypeId :
    (pointing (Workspace.asks lengths)).Keeps counterTypeId j fun id j' => j'.workspace.HoldsType id := by
  unfold counterTypeId
  refine Keeps.bind_get ((pointing_lift (Workspace.asks_typeId _ ?_)).mono fun _ _ _ stands => stands.holds)
  exact nofun

theorem asks_uintConstantId (value width : Value) : (pointing (Workspace.asks lengths)).Keeps
    (liftM (Workspace.uintConstantId value width) : Provision Id) j fun _ _ => True :=
  pointing_lift (Workspace.asks_constantId _ _ nofun)

theorem asks_pointerTypeId (sizes : Workspace.Sizes (Workspace.asks lengths) lengths j.workspace) :
    (pointing (Workspace.asks lengths)).Keeps pointerTypeId j fun _ _ => True := by
  unfold pointerTypeId
  refine Keeps.bind_get ?_
  dsimp only
  split
  · exact Keeps.pure True.intro
  · refine asks_counterTypeId.seq fun counterType j₁ move => ?_
    refine (pointing_lift (Workspace.asks_pointerId _ _ (sizes.later move.1))).seq fun id j₂ _ => ?_
    have noted : (pointing (Workspace.asks lengths)).Keeps (changeBuffer fun b => { b with pointerTypeId := id }) j₂
        fun _ _ => True := Change.After.modify ⟨⟨.refl, rfl⟩, True.intro⟩
    exact noted.seq fun _ _ _ => Keeps.pure True.intro

/-- All that an increment refers to is asked for before its instructions are put together. -/
theorem after_fill {good : List InstRef → Job → Prop} {bad : Error → Job → Prop} {atomic : Bool} {traceIndex : Int}
    {buffer : Id} (sizes : Workspace.Sizes (Workspace.asks lengths) lengths j.workspace)
    (failed : ∀ e j', (pointing (Workspace.asks lengths)).fails j e j' → bad e j')
    (assembled : ∀ o j', (pointing (Workspace.asks lengths)).moves j j' →
      Change.After (assemble atomic o) j' good bad) :
    Change.After (fill atomic traceIndex buffer) j good bad := by
  have asked {β : Type} {first : Provision β} {next : β → Provision (List InstRef)} {post : β → Job → Prop} {j₁ : Job}
      (reached : (pointing (Workspace.asks lengths)).moves j j₁)
      (before : (pointing (Workspace.asks lengths)).Keeps first j₁ post)
      (rest : ∀ a j', (pointing (Workspace.asks lengths)).moves j j' → Change.After (next a) j' good bad) :
      Change.After (first >>= next) j₁ good bad :=
    .bind (.mono (before.after_move reached) (fun a j' held => rest a j' held.1) failed)
  unfold fill
  refine asked ((pointing _).refl j) (asks_pointerTypeId sizes) fun pointerType j₁ reached => ?_
  refine asked reached asks_counterTypeId fun counterType j₂ reached => ?_
  refine asked reached (asks_uintConstantId _ _) fun member j₃ reached => ?_
  refine asked reached (asks_uintConstantId _ _) fun index j₄ reached => .bind_get ?_
  refine asked reached (asks_uintConstantId _ _) fun one j₅ reached => ?_
  exact assembled { pointerType, counterType, buffer, member, index, one } j₅ reached

/-! ### The buffer -/

theorem turns_asks {action : Action α} {post : α → Workspace → Prop}
    (h : (Workspace.asks lengths).Keeps action j.workspace post) :
    (turns (Workspace.Turn lengths texts)).Keeps (liftM action : Provision α) j fun a j' => post a j'.workspace :=
  turns_lift (Workspace.turns_of_asks h)

theorem turns_uintConstantId (value width : Value) : (turns (Workspace.Turn lengths texts)).Keeps
    (liftM (Workspace.uintConstantId value width) : Provision Id) j fun _ _ => True :=
  turns_asks (Workspace.asks_constantId _ _ nofun)

theorem turns_asides {targets : Set Value} {action : Action α} {post : α → Workspace → Prop}
    (h : (Workspace.asides texts targets).Keeps action j.workspace post) :
    (turns (Workspace.Turn lengths texts)).Keeps (liftM action : Provision α) j fun a j' => post a j'.workspace :=
  turns_lift (Workspace.turns_of_asides h)

/-- What is only asked for goes in turns. -/
theorem turns_of_pointing {change : Provision α} {post : α → Job → Prop}
    (h : (pointing (Workspace.asks lengths)).Keeps change j post) :
    (turns (Workspace.Turn lengths texts)).Keeps change j post :=
  h.into (fun _ => moves_of_pointing .ask) fun _ _ => fails_of_pointing .ask

theorem turns_declareVariable (wide : Bool) (bufferType : Id)
    (sizes : Workspace.Sizes (Workspace.turns lengths texts) lengths j.workspace) :
    (turns (Workspace.Turn lengths texts)).Keeps (declareVariable wide bufferType) j fun _ _ => True := by
  refine (turns_asks (Workspace.asks_pointerId _ _ sizes.asks)).bind fun pointerType _ _ typed => ?_
  refine (turns_lift (Workspace.turns_declareBufferVariable typed)).seq fun id _ _ => ?_
  refine (turns_asides (Workspace.asides_addBufferNames (Set.mem_univ _) (Set.mem_univ _))).seq fun _ _ _ => ?_
  refine (turns_asks (Workspace.asks_of_notes (Workspace.notes_decorate _ _))).discard.seq fun _ _ _ => ?_
  refine (turns_asks (Workspace.asks_of_notes (Workspace.notes_decorate _ _))).discard.seq fun _ _ _ => ?_
  have plain {action : Action Unit} {j : Job}
      (h : (Workspace.asides texts Set.univ).Keeps action j.workspace fun _ _ => True) :
      (turns (Workspace.Turn lengths texts)).Keeps (liftM action : Provision Unit) j fun _ _ => True := turns_asides h
  refine (plain Workspace.asides_provideExtension).seq fun _ j₆ _ => ?_
  have ending (j₇ : Job) : (turns (Workspace.Turn lengths texts)).Keeps (listVariable id) j₇ fun _ _ => True :=
    (plain (Workspace.asides_extendInterfaces (Set.mem_univ _))).seq fun _ _ _ => Keeps.pure True.intro
  split
  · exact (plain Workspace.asides_provideWideCounters).seq fun _ j₇ _ => ending j₇
  · exact ending j₆

theorem turns_bufferId (sizes : Workspace.Sizes (Workspace.turns lengths texts) lengths j.workspace) :
    (turns (Workspace.Turn lengths texts)).Keeps bufferId j fun _ _ => True := by
  have declare : (turns (Workspace.Turn lengths texts)).Keeps declareBuffer j fun _ _ => True := by
    rw [declareBuffer_eq]
    refine Keeps.bind_get ?_
    refine (turns_asks (Workspace.asks_typeId _ nofun)).bind fun bufferType j₁ move₁ stands => ?_
    refine (turns_asks (Workspace.asks_of_finds Workspace.finds_needUses).with_move).bind fun uses j₂ move₂ held => ?_
    have sizes₂ := (sizes.later (workspace_of_turns move₁)).later (workspace_of_turns move₂)
    dsimp only
    split
    next unused =>
      have noted : (turns (Workspace.Turn lengths texts)).Keeps
          (changeBuffer fun b => { b with unusedTypes := b.unusedTypes ++ [bufferType] }) j₂ fun _ _ => True := by
        -- That no use of the type is known is a turn of its own, which some runs never take.
        have overlooked : Turn (Workspace.Turn lengths texts) j₂ _ :=
          .overlook (stands.later held.1) (List.cons_ne_nil _ _) held.2 unused
        exact Change.After.modify ⟨.single overlooked, True.intro⟩
      exact noted.seq fun _ j₃ move => turns_declareVariable _ bufferType (sizes₂.later (workspace_of_turns move))
    next => exact turns_declareVariable _ bufferType sizes₂
  unfold bufferId
  refine Keeps.bind_get ?_
  dsimp only
  split
  · exact Keeps.pure True.intro
  · refine declare.seq fun id j₁ _ => ?_
    have noted : (turns (Workspace.Turn lengths texts)).Keeps (changeBuffer fun b => { b with variableId := id }) j₁
        fun _ _ => True := Change.After.modify ⟨.single (.settle rfl), True.intro⟩
    exact noted.seq fun _ _ _ => Keeps.pure True.intro

/-- An increment is put together after turns in which its buffer is provided. -/
theorem after_increment {good : List InstRef → Job → Prop} {bad : Error → Job → Prop} {atomic : Bool}
    {traceIndex : Int} (sizes : Workspace.Sizes (Workspace.turns lengths texts) lengths j.workspace)
    (failed : ∀ e j', (turns (Workspace.Turn lengths texts)).fails j e j' → bad e j')
    (assembled : ∀ o j', (turns (Workspace.Turn lengths texts)).moves j j' →
      Change.After (assemble atomic o) j' good bad) :
    Change.After (increment atomic traceIndex) j good bad := by
  rw [increment_eq]
  refine .bind (.mono (turns_asks Workspace.asks_needConstants).discard (fun _ j₁ held => ?_) failed)
  have sizes₁ := sizes.later (workspace_of_turns held.1)
  refine .bind (.mono ((turns_bufferId sizes₁).after_move held.1) (fun buffer j₂ held => ?_) failed)
  have asked {w w' : Workspace} (ask : Workspace.Ask lengths w w') : Workspace.Turn lengths texts w w' := .ask ask
  refine after_fill (sizes.later (workspace_of_turns held.1)).asks (fun e j' lost => ?_) fun o j' move => ?_
  · exact failed e j' ((turns _).later held.1 (fails_of_pointing asked lost))
  · exact assembled o j' ((turns _).trans held.1 (moves_of_pointing asked move))

/-! ### The instructions of an increment -/

section Making

variable {j : Job} (asked : ∀ {w w'}, Workspace.Ask lengths w w' → turn w w')
include asked

theorem making_of_asks {post : α → Job → Prop} (h : (pointing (Workspace.asks lengths)).Keeps change j post) :
    (pointing (Workspace.making turn)).Keeps change j post :=
  h.into (fun _ held => ⟨walk_moves_mono (fun ask => .turn (asked ask)) held.1, held.2⟩)
    fun _ _ held => ⟨walk_fails_mono (fun ask => .turn (asked ask)) held.1, held.2⟩

omit asked in
theorem making_takeId :
    (pointing (Workspace.making turn)).Keeps (liftM Program.takeId : Provision Id) j fun _ _ => True :=
  pointing_lift Workspace.making_takeId

theorem making_addOne (atomic : Bool) (counterType pointer one : Id) :
    (pointing (Workspace.making turn)).Keeps (addOne atomic counterType pointer one) j fun _ _ => True := by
  cases atomic with
  | true =>
    unfold addOne
    refine (making_of_asks asked (asks_uintConstantId _ _)).seq fun scope _ _ => ?_
    refine (making_of_asks asked (asks_uintConstantId _ _)).seq fun semantics _ _ => ?_
    exact making_takeId.seq fun _ _ _ => Keeps.pure True.intro
  | false =>
    unfold addOne
    exact making_takeId.seq fun value _ _ => making_takeId.seq fun sum _ _ => Keeps.pure True.intro

theorem making_assemble (atomic : Bool) (o : Increment.Operands) :
    (pointing (Workspace.making turn)).Keeps (assemble atomic o) j fun _ _ => True := by
  unfold assemble
  refine making_takeId.seq fun pointer _ _ => (making_addOne asked _ _ _ _).seq fun rest _ _ => ?_
  refine (Keeps.mapM _ fun i _ j => ?_).seq fun refs _ _ => ?_
  · exact pointing_lift (Workspace.making_newInst i)
  · refine (Keeps.forM fun r _ j _ => ?_).seq fun _ _ _ => Keeps.pure True.intro
    exact pointing_lift (Workspace.making_record r)

end Making

/-- In a buffer that is there an increment only asks for types and constants and makes instructions. -/
theorem making_fill (sizes : Workspace.Sizes (Workspace.asks lengths) lengths j.workspace) (atomic : Bool)
    (traceIndex : Int) (buffer : Id) : (pointing (Workspace.making (Workspace.Ask lengths))).Keeps
      (fill atomic traceIndex buffer) j fun _ _ => True := by
  have ask {w w' : Workspace} : Workspace.Ask lengths w w' → Workspace.Ask lengths w w' := id
  refine after_fill sizes (fun e j' failed => ?_) fun o j' move => (making_assemble ask atomic o).after_move ?_
  · exact ⟨walk_fails_mono .turn failed.1, failed.2⟩
  · exact ⟨walk_moves_mono .turn move.1, move.2⟩

theorem turns_increment (sizes : Workspace.Sizes (Workspace.turns lengths texts) lengths j.workspace) (atomic : Bool)
    (traceIndex : Int) : (turns (Workspace.Making (Workspace.Turn lengths texts))).Keeps (increment atomic traceIndex) j
      fun _ _ => True := by
  have each {j j' : Job} (turned : Turn (Workspace.Turn lengths texts) j j') :
      Turn (Workspace.Making (Workspace.Turn lengths texts)) j j' := turned.mono Workspace.Making.turn
  refine after_increment sizes (fun _ _ => walk_fails_mono each) fun o j' move => ?_
  have assembled :
      (turns (Workspace.Making (Workspace.Turn lengths texts))).Keeps (assemble atomic o) j' fun _ _ => True :=
    (making_assemble .ask atomic o).into (fun _ => moves_of_pointing id) fun _ _ => fails_of_pointing id
  exact assembled.after_move (walk_moves_mono each move)

end Job

/-! ### Runs -/

namespace Run

open Change

variable {σ : Type} {r : Run σ} {D : Contract Job}

structure Carries (D : Contract Job) : Prop where
  lenient : D.Lenient
  increment : ∀ (j : Job) (atomic : Bool) (traceIndex : Int),
    D.Keeps (Job.increment atomic traceIndex) j fun _ j' => ∀ (b : BlockRef) (gap : Nat) (refs : List InstRef),
      D.moves j { j' with workspace.program := j'.workspace.program.inserted b gap refs }

/-- A contract that is kept where instructions are put into a block. -/
theorem Carries.of_inserted (lenient : D.Lenient)
    (increment : ∀ (j : Job) (atomic : Bool) (traceIndex : Int),
      D.Keeps (Job.increment atomic traceIndex) j fun _ _ => True)
    (inserted : ∀ (j : Job) (b : BlockRef) (gap : Nat) (refs : List InstRef),
      D.moves j { j with workspace.program := j.workspace.program.inserted b gap refs }) : Carries D where
  lenient := lenient
  increment j atomic traceIndex := (increment j atomic traceIndex).mono fun _ j' move _ b gap refs =>
    D.trans move (inserted j' b gap refs)

def carrying (D : Contract Job) : Contract (Run σ) where
  moves r r' := D.moves r.job r'.job ∧ r'.host = r.host
  exhausted r := D.exhausted r.job
  refl r := ⟨D.refl r.job, rfl⟩
  trans first second := ⟨D.trans first.1 second.1, second.2.trans first.2⟩

/-- The host after a run: the hooks may have been told of the blocks. -/
def Told (hooks : Hooks σ) (settings : Settings) (r : Run σ) (host : σ) : Prop :=
  host = r.host ∨ ∃ labels, host = told hooks labels { prepare settings r with labels }

namespace Carries

variable (h : Carries D)
include h

theorem instrumentBlock (atomic : Bool) (b : BlockRef) :
    (carrying D).Keeps (instrumentBlock atomic b) r fun _ _ => True := by
  unfold Run.instrumentBlock
  apply Keeps.bind_get
  dsimp only
  split
  · exact Keeps.pure True.intro
  split
  · exact Keeps.throw_lenient (Contract.Lenient.account fun r => h.lenient r.job)
  next traceIndex _ =>
    have filled : After (Job.increment atomic traceIndex) r.job
        (fun _ j' => D.moves r.job j' ∧ ∀ (b : BlockRef) (gap : Nat) (refs : List InstRef),
          D.moves r.job { j' with workspace.program := j'.workspace.program.inserted b gap refs })
        (D.Fails r.job) := h.increment r.job atomic traceIndex
    refine After.bind (After.within (After.mono filled (fun refs j' held => ?_) fun _ _ failed =>
      ⟨⟨failed.1, rfl⟩, failed.2⟩))
    refine After.bind (After.within (After.within (After.within (Program.after_insertInsts ?_))))
    exact After.bind (After.modify (After.pure ⟨⟨held.2 b _ refs, rfl⟩, True.intro⟩))

theorem instrumentFunction (atomic : Bool) (f : FuncRef) :
    (carrying D).Keeps (instrumentFunction atomic f) r fun _ _ => True := by
  unfold Run.instrumentFunction
  apply Keeps.bind_get
  refine Keeps.foldlM (fun _ _ _ => True) True.intro fun _ b _ changed r' _ _ _ => ?_
  exact (h.instrumentBlock atomic b).seq fun _ _ _ => Keeps.pure True.intro

theorem anyChange (atomic : Bool) (tour : Tour) :
    (carrying D).Keeps (tour.anyChange (Run.instrumentFunction atomic)) r fun _ _ => True := by
  unfold Tour.anyChange Tour.foldM
  refine Keeps.seq (Keeps.foldlM (fun _ _ _ => True) True.intro fun _ f _ changed r' _ _ _ => ?_) fun _ r' _ => ?_
  · exact (h.instrumentFunction atomic f).seq fun _ _ _ => Keeps.pure True.intro
  · split
    · exact Keeps.throw_lenient (Contract.Lenient.account fun r => h.lenient r.job)
    · exact Keeps.pure True.intro

/-- A run starts from the program alone, and drops what it found in the end. -/
theorem run (settings : Settings) {hooks : Hooks σ} (quiet : hooks.Quiet) : After (run settings hooks) r
    (fun _ r' => (∃ j, D.moves (prepare settings r).job j ∧ r'.job = { j with workspace.facts := {} }) ∧
      Told hooks settings r r'.host)
    fun _ r' => D.moves (prepare settings r).job r'.job ∧ Told hooks settings r r'.host := by
  refine after_stages_told settings quiet (fun _ _ => ⟨D.refl _, .inl rfl⟩) fun labels tour _ => ?_
  refine After.mono (h.anyChange settings.atomic tour) (fun _ r' held => ?_) fun _ _ held => ?_
  · exact ⟨⟨r'.job, held.1.1, rfl⟩, .inr ⟨labels, held.1.2⟩⟩
  · exact ⟨held.1.1, .inr ⟨labels, held.1.2⟩⟩

end Carries

end Run

end BlockTally
