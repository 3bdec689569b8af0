import BlockTally.Proofs.Counter.Presenting
import BlockTally.Proofs.Counter.Turns
import BlockTally.Proofs.Counter.Supply

/-! Modules that are in stock of all that increments refer to.

After an increment was made, the module answers all requests that were made for it. An increment for the same counter
then declares nothing but the buffer variable, and not even that if there is one already.
-/

set_option autoImplicit false

namespace BlockTally

open Workspace (Request)

/-! ### The types of a buffer -/

namespace CounterBuffer

variable (b : CounterBuffer) {p q : Program}

theorem formed_uint (width : Int) : (Ty.uint width).Formed :=
  Decoration.settled_nil

theorem formed_bufferType : b.bufferType.Formed :=
  ⟨⟨⟨True.intro, formed_uint _, settled_singleton (by simp)⟩, True.intro⟩, settled_singleton (by simp),
    settled_singleton (by simp)⟩

theorem eq_counterType {ty : Ty} (same : ty.key = b.counterType.key) : ty = b.counterType :=
  Ty.eq_atom_of_key same

theorem eq_bufferType {ty : Ty} (same : ty.key = b.bufferType.key) : ty = b.bufferType := by
  obtain ⟨array, rfl, member⟩ := Ty.eq_struct_of_key same
  obtain ⟨counter, rfl, component⟩ := Ty.eq_runtimeArray_of_key member
  rw [b.eq_counterType component]
  rfl

def scopes (atomic : Bool) : List Request :=
  if atomic then
    [.constant (.uint 32) (.int Scope.device), .constant (.uint 32) (.int MemorySemantics.relaxed)]
  else []

def demands (atomic : Bool) (index : Int) : List Request :=
  [.type b.addressType, .type b.counterType, .constant (.uint 32) (.int 0), .constant (.uint 32) (.int index),
    .constant (.uint b.width) (.int 1)] ++ scopes atomic

/-- A variable for the buffer can be declared without further declarations. -/
structure Stocked (p : Program) : Prop where
  bufferType : ∃ id, (Request.type b.bufferType).Answered p id ∧ p.Mentions .debugs2 .name (.int id)
  variableType : ∃ id, (Request.type b.variableType).Answered p id
  supports : p.Supports b.wide

variable {b}

theorem demands_congr {b' : CounterBuffer} (wide : b'.wide = b.wide) (atomic : Bool) (index : Int) :
    b'.demands atomic index = b.demands atomic index := by
  obtain ⟨counter, -, address⟩ := types_congr wide
  simp only [demands, counter, address, width, wide]

theorem Stocked.congr {b' : CounterBuffer} (wide : b'.wide = b.wide) (h : b.Stocked p) : b'.Stocked p := by
  obtain ⟨bufferType, variableType, supports⟩ := h
  exact ⟨bufferType_congr wide ▸ bufferType, (types_congr wide).2.1 ▸ variableType, wide ▸ supports⟩

theorem Stocked.later (h : b.Stocked p) (grows : p.Grows q) (keeps : Request.Keeps p q) : b.Stocked q where
  bufferType := by
    obtain ⟨id, answered, named⟩ := h.bufferType
    exact ⟨id, keeps _ id answered, named.of_grows grows⟩
  variableType := h.variableType.imp fun id => keeps _ id
  supports := h.supports.of_grows grows

end CounterBuffer

theorem Workspace.Request.Answered.unique {p : Program} {ty : Ty} {id id' : Id}
    (first : (Request.type ty).Answered p id) (second : (Request.type ty).Answered p id') : id = id' := by
  obtain ⟨t, read, -, rfl, -⟩ := first
  obtain ⟨t', read', -, rfl, -⟩ := second
  obtain rfl := Except.ok.inj (read.symm.trans read')
  rfl

namespace Program

variable {p q o : Program}

/-- The second module has a new variable with a name and two annotations, and no other new entries. -/
def Equips (p q : Program) : Prop :=
  ∃ buffer name first second, p.Gains q [buffer] [name] [first, second] ∧ q.Holds buffer ∧
    (q.inst buffer).opcode = .var ∧ p.module.idBound ≤ (q.inst buffer).resultId

theorem Equips.later (h : p.Equips q) (grows : q.Grows o) (gains : q.Gains o [] [] []) : p.Equips o := by
  obtain ⟨buffer, name, first, second, gained, held, variable', new⟩ := h
  refine ⟨buffer, name, first, second, gained.trans gains, grows.holds held, (grows.opcode held).trans variable', ?_⟩
  rwa [grows.resultId held]

def Meets (p : Program) (requests : List Request) : Prop :=
  ∀ request ∈ requests, ∃ id, request.Answered p id

theorem meets_nil : p.Meets [] :=
  fun _ => nofun

@[simp] theorem meets_cons {request : Request} {requests : List Request} :
    p.Meets (request :: requests) ↔ (∃ id, request.Answered p id) ∧ p.Meets requests :=
  List.forall_mem_cons

@[simp] theorem meets_append {requests requests' : List Request} :
    p.Meets (requests ++ requests') ↔ p.Meets requests ∧ p.Meets requests' :=
  List.forall_mem_append

theorem Meets.later {requests : List Request} (h : p.Meets requests) (keeps : Request.Keeps p q) : q.Meets requests :=
  fun request member => (h request member).imp fun id => keeps request id

end Program

namespace Job

open Change Account Contract

variable {α β : Type} {j j' : Job} {post : α → Job → Prop}

def Recalling (change : Provision α) (j : Job) (post : α → Job → Prop) : Prop :=
  j.workspace.Settled → After change j (fun a j' => j.workspace.Recalls j'.workspace ∧ post a j') fun _ _ => True

namespace Recalling

theorem mono {change : Provision α} {post' : α → Job → Prop} (h : Recalling change j post)
    (weaker : ∀ a j', j.workspace.Recalls j'.workspace → post a j' → post' a j') : Recalling change j post' :=
  fun settled => .mono (h settled) (fun a j' held => ⟨held.1, weaker a j' held.1 held.2⟩) fun _ _ => id

theorem bind {change : Provision α} {next : α → Provision β} {last : β → Job → Prop} (h : Recalling change j post)
    (rest : ∀ a j', j.workspace.Recalls j'.workspace → post a j' → Recalling (next a) j' last) :
    Recalling (change >>= next) j last :=
  fun settled => .bind (.mono (h settled) (fun a j' held =>
    .mono (rest a j' held.1 held.2 held.1.settled) (fun _ _ later => ⟨held.1.trans later.1, later.2⟩) fun _ _ => id)
    fun _ _ => id)

theorem pure {a : α} (h : post a j) : Recalling (Pure.pure a) j post :=
  fun settled => .pure ⟨settled.recalls, h⟩

theorem bind_get {next : Job → Provision β} {last : β → Job → Prop} (h : Recalling (next j) j last) :
    Recalling (MonadState.get >>= next) j last := h

theorem discard {change : Provision α} {post : Job → Prop} (h : Recalling change j fun _ => post) :
    Recalling (discard change) j fun _ => post :=
  h.bind fun _ _ _ held => pure held

/-- A request in the workspace leaves the buffer alone. -/
theorem lift {action : Action α} {post : α → Workspace → Prop} (h : Workspace.Recalling action j.workspace post) :
    Recalling (liftM action : Provision α) j fun a j' => j'.buffer = j.buffer ∧ post a j'.workspace :=
  fun settled => After.within (.mono (h settled) (fun _ _ held => ⟨held.1, rfl, held.2⟩) fun _ _ => id)

theorem changeBuffer (change : CounterBuffer → CounterBuffer) :
    Recalling (changeBuffer change) j fun _ j' => j' = { j with buffer := change j.buffer } :=
  fun settled => After.modify ⟨settled.recalls, rfl⟩

end Recalling

/-- A request that is answered in a job, and that is met without a declaration if it was answered before. -/
theorem recalling_request (request : Request) (formed : request.Formed) :
    Recalling (liftM request.run : Provision Id) j fun id j' => j'.buffer = j.buffer ∧
      request.Answered j'.workspace.program id ∧
      ((∃ id', request.Answered j.workspace.program id') → j'.workspace.program = j.workspace.program) :=
  .lift (Workspace.recalling_request formed)

/-! ### The variable -/

/-- The features are provided, and the variable is listed in the interfaces. -/
theorem recalling_supportVariable (wide : Bool) (id : Id) : Recalling (supportVariable wide id) j
    fun answer j' => answer = id ∧ j'.buffer = j.buffer ∧ j'.workspace.program.Supports wide ∧
      (j.workspace.program.Supports wide → j.workspace.program.Gains j'.workspace.program [] [] []) := by
  have ending {j : Job} (supports : j.workspace.program.Supports wide) : Recalling (listVariable id) j
      fun answer j' => answer = id ∧ j'.buffer = j.buffer ∧
        j'.workspace.program.Supports wide ∧ j.workspace.program.Gains j'.workspace.program [] [] [] := by
    refine (Recalling.lift (Workspace.recalling_extendInterfaces id)).bind fun _ j' recalls held => .pure ?_
    obtain ⟨buffer, module⟩ := held
    exact ⟨rfl, buffer, supports.of_grows recalls.grows, .of_same fun place => by rw [module]⟩
  refine (Recalling.lift Workspace.recalling_provideExtension).bind fun _ j₁ _ held => ?_
  obtain ⟨buffer₁, extension, same₁⟩ := held
  split
  next wide =>
    refine (Recalling.lift (Workspace.recalling_provideWideCounters extension)).bind fun _ j₂ _ held => ?_
    obtain ⟨buffer₂, supports, same₂⟩ := held
    -- What is supported already is provided without a change.
    obtain rfl := wide
    refine (ending supports).mono fun answer j₃ _ held => ?_
    obtain ⟨rfl, buffer₃, supports₃, gains⟩ := held
    refine ⟨rfl, buffer₃.trans (buffer₂.trans buffer₁), supports₃, fun before => ?_⟩
    have program₁ := same₁ before.extension
    rwa [same₂ (program₁ ▸ before), program₁] at gains
  next narrow =>
    refine (ending ⟨extension, fun needed => absurd needed narrow, fun needed => absurd needed narrow⟩).mono
      fun answer j₂ _ held => ?_
    obtain ⟨rfl, buffer₂, supports₂, gains⟩ := held
    refine ⟨rfl, buffer₂.trans buffer₁, supports₂, fun before => ?_⟩
    rwa [same₁ before.extension] at gains

/-- The variable is decorated with its place among the descriptors. -/
theorem recalling_bind {id : Id} {number place : Int} {given : List Decoration}
    (carries : j.workspace.program.Carries id given) (new : [.int number, .int place] ∉ given) :
    Recalling (discard (Workspace.decorate (.int id) [.int number, .int place]) : Provision Unit) j fun _ j' =>
      j'.buffer = j.buffer ∧ j'.workspace.program.Carries id ([.int number, .int place] :: given) ∧
        ∃ note, j.workspace.program.Gains j'.workspace.program [] [] [note] := by
  refine ((Recalling.lift (Workspace.recalling_decorate carries new)).mono fun _ j' _ held => ?_).discard
  obtain ⟨buffer, program, carries'⟩ := held
  exact ⟨buffer, carries', _, program ▸ j.workspace.program.gains_noted _⟩

structure Presents (wide : Bool) (bufferType : Id) (j j' : Job) : Prop where
  buffer : j'.buffer = j.buffer
  mentions : j'.workspace.program.Mentions .debugs2 .name (.int bufferType)
  supports : j'.workspace.program.Supports wide
  gains : j.workspace.program.Mentions .debugs2 .name (.int bufferType) → j.workspace.program.Supports wide →
    ∃ name first second, j.workspace.program.Gains j'.workspace.program [] [name] [first, second]

theorem recalling_presentVariable (wide : Bool) (bufferType : Id) {id : Id}
    (carries : j.workspace.program.Carries id []) :
    Recalling (presentVariable wide bufferType id) j
      fun answer j' => answer = id ∧ Presents wide bufferType j j' := by
  refine (Recalling.lift (Workspace.recalling_addBufferNames bufferType (.int id))).bind fun _ j₁ recalls₁ held => ?_
  obtain ⟨buffer₁, alike, mentions, names, gains₁, once⟩ := held
  refine (recalling_bind (alike.carries carries) List.not_mem_nil).bind fun _ j₂ recalls₂ held => ?_
  obtain ⟨buffer₂, carries₂, first, gains₂⟩ := held
  refine (recalling_bind carries₂ (by decide)).bind fun _ j₃ recalls₃ held => ?_
  obtain ⟨buffer₃, -, second, gains₃⟩ := held
  refine (recalling_supportVariable wide id).mono fun answer j₄ recalls₄ held => ?_
  obtain ⟨rfl, buffer₄, supports, gains₄⟩ := held
  have after := (recalls₂.trans recalls₃).trans recalls₄
  have buffer : j₄.buffer = j.buffer := by rw [buffer₄, buffer₃, buffer₂, buffer₁]
  refine ⟨rfl, buffer, mentions.of_grows after.grows, supports, fun named supported => ?_⟩
  obtain ⟨name, rfl⟩ := once named
  have supported₃ := supported.of_grows ((recalls₁.trans recalls₂).trans recalls₃).grows
  exact ⟨name, first, second, ((gains₁.trans gains₂).trans gains₃).trans (gains₄ supported₃)⟩

theorem recalling_declareVariable (b : CounterBuffer) {bufferType : Id}
    (answered : (Request.type b.bufferType).Answered j.workspace.program bufferType) :
    Recalling (declareVariable b.wide bufferType) j
      fun id j' => 0 < id ∧ j'.buffer = j.buffer ∧ b.Stocked j'.workspace.program ∧
        (b.Stocked j.workspace.program → j.workspace.program.Equips j'.workspace.program) := by
  refine (Recalling.lift (Workspace.recalling_pointerId (fun _ => b.eq_bufferType) b.formed_bufferType answered)).bind
    fun pointerType j₁ recalls₁ held₁ => ?_
  obtain ⟨buffer₁, pointer, same₁⟩ := held₁
  refine (Recalling.lift (Workspace.recalling_declareBufferVariable pointerType)).bind fun id j₂ recalls₂ held₂ => ?_
  obtain ⟨buffer₂, taken, positive, carries, program₂⟩ := held₂
  refine (recalling_presentVariable b.wide bufferType carries).mono fun answer j₃ recalls₃ held₃ => ?_
  obtain ⟨rfl, presents⟩ := held₃
  have recalls := recalls₂.trans recalls₃
  refine ⟨positive, ?_, ⟨⟨bufferType, ?_, presents.mentions⟩, ⟨pointerType, ?_⟩, presents.supports⟩, fun stocked => ?_⟩
  · rw [presents.buffer, buffer₂, buffer₁]
  · exact (recalls₁.trans recalls).keeps _ _ answered
  · exact recalls.keeps _ _ pointer
  -- All that a stocked module lacks is the variable itself, with its name and its place.
  have grows₂ : j.workspace.program.Grows j₂.workspace.program := (recalls₁.trans recalls₂).grows
  obtain ⟨bufferType', answered', named⟩ := stocked.bufferType
  obtain rfl := answered'.unique answered
  obtain ⟨name, first, second, gains⟩ := presents.gains (named.of_grows grows₂) (stocked.supports.of_grows grows₂)
  rw [← same₁ stocked.variableType]
  let i := Workspace.bufferDeclaration pointerType answer
  let buffer : InstRef := ⟨j₁.workspace.program.instructions.size⟩
  have declared : j₁.workspace.program.Gains j₂.workspace.program [buffer] [] [] :=
    program₂ ▸ j₁.workspace.program.gains_declared i
  have held : j₂.workspace.program.Holds buffer := program₂ ▸ j₁.workspace.program.nextBound.holds_made i
  have inst : j₂.workspace.program.inst buffer = i := program₂ ▸ j₁.workspace.program.inst_declared i
  refine ⟨buffer, name, first, second, declared.trans gains, recalls₃.grows.holds held, ?_, ?_⟩
  · rw [recalls₃.grows.opcode held, inst]
    rfl
  · rw [recalls₃.grows.resultId held, inst]
    exact Int.le_of_eq taken.symm

structure Furnishes (b : CounterBuffer) (j : Job) (id : Id) (j' : Job) : Prop where
  positive : 0 < id
  wide : j'.buffer.wide = j.buffer.wide
  pointerTypeId : j'.buffer.pointerTypeId = j.buffer.pointerTypeId
  stocked : b.Stocked j'.workspace.program
  equips : b.Stocked j.workspace.program → j.workspace.program.Equips j'.workspace.program

theorem recalling_declareBuffer : Recalling declareBuffer j (Furnishes j.buffer j) := by
  rw [declareBuffer_eq]
  refine .bind_get ?_
  refine (recalling_request (.type j.buffer.bufferType) j.buffer.formed_bufferType).bind
    fun bufferType j₁ recalls₁ held₁ => ?_
  obtain ⟨buffer₁, answered, same₁⟩ := held₁
  refine (Recalling.lift Workspace.recalling_needUses).bind fun uses j₂ recalls₂ held₂ => ?_
  obtain ⟨buffer₂, program₂⟩ := held₂
  have buffer : j₂.buffer = j.buffer := buffer₂.trans buffer₁
  have answered₂ : (Request.type j.buffer.bufferType).Answered j₂.workspace.program bufferType := by rwa [program₂]
  -- The note about an unused type is in the buffer only, so both branches furnish alike.
  have furnishes {j₃ : Job} {id : Id} {j' : Job} (program : j₃.workspace.program = j₂.workspace.program)
      (wide : j₃.buffer.wide = j₂.buffer.wide) (pointerTypeId : j₃.buffer.pointerTypeId = j₂.buffer.pointerTypeId)
      (held : 0 < id ∧ j'.buffer = j₃.buffer ∧ j.buffer.Stocked j'.workspace.program ∧
        (j.buffer.Stocked j₃.workspace.program → j₃.workspace.program.Equips j'.workspace.program)) :
      Furnishes j.buffer j id j' := by
    obtain ⟨positive, buffer', stocked, equips⟩ := held
    refine ⟨positive, by rw [buffer', wide, buffer], by rw [buffer', pointerTypeId, buffer], stocked, fun before => ?_⟩
    have same := same₁ (before.bufferType.imp fun _ held => held.1)
    rw [program, program₂, same] at equips
    exact equips before
  dsimp only
  split
  · refine (Recalling.changeBuffer _).bind fun _ j₃ _ same => ?_
    have program : j₃.workspace.program = j₂.workspace.program := by rw [same]
    have answered₃ : (Request.type j.buffer.bufferType).Answered j₃.workspace.program bufferType := by rwa [program]
    refine (recalling_declareVariable j.buffer answered₃).mono fun _ _ _ => ?_
    exact furnishes program (by rw [same]) (by rw [same])
  · exact (recalling_declareVariable j.buffer answered₂).mono fun _ _ _ => furnishes rfl rfl rfl

structure Kept (j : Job) : Prop where
  variableId : j.buffer.variableId ≠ 0 → j.buffer.Stocked j.workspace.program
  pointerTypeId : j.buffer.pointerTypeId ≠ 0 →
    ∃ id, (Request.type j.buffer.addressType).Answered j.workspace.program id

theorem Kept.later (h : j.Kept) (recalls : j.workspace.Recalls j'.workspace) (buffer : j'.buffer = j.buffer) :
    j'.Kept := by
  refine ⟨fun declared => ?_, fun asked => ?_⟩
  · rw [buffer] at declared ⊢
    exact (h.variableId declared).later recalls.grows recalls.keeps
  · rw [buffer] at asked ⊢
    exact (h.pointerTypeId asked).imp fun id => recalls.keeps _ id

theorem recalling_bufferId (kept : j.Kept) : Recalling bufferId j fun _ j' => j'.Kept ∧
    j'.buffer.wide = j.buffer.wide ∧ j'.buffer.variableId ≠ 0 ∧
    (j.buffer.variableId ≠ 0 → j'.workspace.program = j.workspace.program) ∧
    (j.buffer.variableId = 0 → j.buffer.Stocked j.workspace.program →
      j.workspace.program.Equips j'.workspace.program) := by
  unfold bufferId
  refine .bind_get ?_
  dsimp only
  split
  next declared => exact .pure ⟨kept, rfl, declared, fun _ => rfl, fun none => absurd none declared⟩
  next none =>
    rw [not_not] at none
    refine recalling_declareBuffer.bind fun id j₁ recalls₁ held₁ => ?_
    obtain ⟨positive, wide, pointerTypeId, stocked, equips⟩ := held₁
    refine (Recalling.changeBuffer _).bind fun _ j₂ _ same => .pure ?_
    subst same
    refine ⟨⟨fun _ => stocked.congr wide, fun asked => ?_⟩, wide, Int.ne_of_gt positive,
      fun declared => absurd none declared, fun _ => equips⟩
    have address := (CounterBuffer.types_congr wide).2.2
    exact address ▸ (kept.pointerTypeId (pointerTypeId ▸ asked)).imp fun id => recalls₁.keeps _ id

theorem recalling_counterTypeId : Recalling counterTypeId j fun id j' => j'.buffer = j.buffer ∧
    (Request.type j.buffer.counterType).Answered j'.workspace.program id ∧
    ((∃ id', (Request.type j.buffer.counterType).Answered j.workspace.program id') →
      j'.workspace.program = j.workspace.program) := by
  unfold counterTypeId
  exact .bind_get (recalling_request (.type j.buffer.counterType) (CounterBuffer.formed_uint j.buffer.width))

theorem recalling_pointerTypeId (kept : j.Kept) : Recalling pointerTypeId j fun _ j' => j'.Kept ∧
    j'.buffer.wide = j.buffer.wide ∧ j'.buffer.variableId = j.buffer.variableId ∧
    (∃ id, (Request.type j.buffer.addressType).Answered j'.workspace.program id) ∧
    ((∃ id, (Request.type j.buffer.addressType).Answered j.workspace.program id) →
      (∃ id, (Request.type j.buffer.counterType).Answered j.workspace.program id) →
      j'.workspace.program = j.workspace.program) := by
  unfold pointerTypeId
  refine .bind_get ?_
  dsimp only
  split
  next asked => exact .pure ⟨kept, rfl, rfl, kept.pointerTypeId asked, fun _ _ => rfl⟩
  next =>
    refine recalling_counterTypeId.bind fun counterType j₁ recalls₁ held₁ => ?_
    obtain ⟨buffer₁, answered, same₁⟩ := held₁
    refine (Recalling.lift (Workspace.recalling_pointerId (fun _ => j.buffer.eq_counterType)
      (CounterBuffer.formed_uint _) answered)).bind fun id j₂ recalls₂ held₂ => ?_
    obtain ⟨buffer₂, pointer, same₂⟩ := held₂
    refine (Recalling.changeBuffer _).bind fun _ j₃ _ same => .pure ?_
    subst same
    have buffer : j₂.buffer = j.buffer := buffer₂.trans buffer₁
    have kept₂ := kept.later (recalls₁.trans recalls₂) buffer
    let b : CounterBuffer := { j₂.buffer with pointerTypeId := id }
    have wide : b.wide = j.buffer.wide := buffer ▸ rfl
    have variableId : b.variableId = j.buffer.variableId := buffer ▸ rfl
    -- The types of a buffer depend on its width only, which has not changed.
    have address : b.addressType = j.buffer.addressType := (CounterBuffer.types_congr wide).2.2
    refine ⟨⟨fun declared => ?_, fun _ => ⟨id, ?_⟩⟩, wide, variableId, ⟨id, pointer⟩, fun address counter => ?_⟩
    · exact CounterBuffer.Stocked.congr (b := j₂.buffer) rfl (kept₂.variableId declared)
    · exact address ▸ pointer
    · have program := same₁ counter
      exact (same₂ (program ▸ address)).trans program

/-! ### Increments -/

/-- Nothing is listed, and the buffer remembers nothing new. -/
def idle : Contract Job where
  moves j j' := (j.workspace.Settled → j.workspace.Recalls j'.workspace) ∧
    j.workspace.program.Gains j'.workspace.program [] [] [] ∧ j'.buffer = j.buffer
  exhausted _ := True
  refl _ := ⟨fun settled => settled.recalls, .refl _, rfl⟩
  trans first second := ⟨fun settled => (first.1 settled).trans (second.1 (first.1 settled).settled),
    first.2.1.trans second.2.1, second.2.2.trans first.2.2⟩

theorem Recalling.of_idle {change : Provision α} (h : idle.Keeps change j post) : Recalling change j fun a j' =>
    j'.buffer = j.buffer ∧ j.workspace.program.Gains j'.workspace.program [] [] [] ∧ post a j' :=
  fun settled => .mono h (fun _ _ held => ⟨held.1.1 settled, held.1.2.2, held.1.2.1, held.2⟩) fun _ _ _ => True.intro

theorem idle_unlisted {q : Program} (grows : j.workspace.program.Grows q)
    (same : ∀ place, q.module.list place = j.workspace.program.module.list place)
    (insts : ∀ r, j.workspace.program.Holds r → q.inst r = j.workspace.program.inst r) :
    idle.moves j { j with workspace.program := q } :=
  ⟨fun settled => settled.unlisted grows same insts, .of_same same, rfl⟩

theorem idle_takeId : idle.Keeps (liftM Program.takeId : Provision Id) j fun _ _ => True := by
  refine After.within (Workspace.after_takeId (fun _ => ⟨idle.refl j, fun _ => True.intro⟩) fun free => ?_)
  refine ⟨idle_unlisted (Program.grows_nextBound free) (fun place => ?_) fun _ _ => rfl, True.intro⟩
  cases place <;> rfl

theorem idle_newInst (i : Instruction) :
    idle.Keeps (liftM (Program.newInst i) : Provision InstRef) j fun _ _ => True := by
  refine After.within (Workspace.after_newInst ⟨idle_unlisted ?_ (fun _ => rfl) fun r held => ?_, True.intro⟩)
  · exact j.workspace.program.grows_made i
  · exact Program.inst_made_of_lt i held

theorem idle_record (r : InstRef) : idle.Keeps (liftM (Workspace.record r) : Provision Unit) j fun _ _ => True :=
  After.within (After.modify ⟨⟨fun settled => settled.withUses _, .refl _, rfl⟩, True.intro⟩)

theorem recalling_constantId (width value : Int) :
    Recalling (liftM (Workspace.uintConstantId (.int value) (.int width)) : Provision Id) j fun _ j' =>
      j'.buffer = j.buffer ∧
      (∃ id, (Request.constant (.uint width) (.int value)).Answered j'.workspace.program id) ∧
      ((∃ id, (Request.constant (.uint width) (.int value)).Answered j.workspace.program id) →
        j'.workspace.program = j.workspace.program) :=
  (recalling_request (.constant (.uint width) (.int value)) (CounterBuffer.formed_uint width)).mono
    fun id _ _ held => ⟨held.1, ⟨id, held.2.1⟩, held.2.2⟩

theorem recalling_addOne (atomic : Bool) (counterType pointer one : Id) :
    Recalling (addOne atomic counterType pointer one) j fun _ j' => j'.buffer = j.buffer ∧
      j'.workspace.program.Meets (CounterBuffer.scopes atomic) ∧
      (j.workspace.program.Meets (CounterBuffer.scopes atomic) →
        j.workspace.program.Gains j'.workspace.program [] [] []) := by
  unfold addOne
  cases atomic with
  | true =>
    refine (recalling_constantId 32 Scope.device).bind fun scope j₁ recalls₁ held => ?_
    obtain ⟨buffer₁, device, same₁⟩ := held
    refine (recalling_constantId 32 MemorySemantics.relaxed).bind fun semantics j₂ recalls₂ held => ?_
    obtain ⟨buffer₂, relaxed, same₂⟩ := held
    refine (Recalling.of_idle idle_takeId).bind fun result j₃ recalls₃ held => .pure ?_
    obtain ⟨buffer₃, gains, -⟩ := held
    refine ⟨buffer₃.trans (buffer₂.trans buffer₁), ?_, fun met => ?_⟩
    · have device₂ := device.imp fun id => recalls₂.keeps _ id
      exact Program.Meets.later (by simp [CounterBuffer.scopes, device₂, relaxed, Program.meets_nil]) recalls₃.keeps
    · obtain ⟨device₀, relaxed₀, -⟩ : _ ∧ _ ∧ _ := by simpa [CounterBuffer.scopes] using met
      rwa [same₂ (relaxed₀.imp fun id => recalls₁.keeps _ id), same₁ device₀] at gains
  | false =>
    refine (Recalling.of_idle idle_takeId).bind fun value j₁ _ held₁ => ?_
    refine (Recalling.of_idle idle_takeId).bind fun sum j₂ _ held₂ => .pure ?_
    exact ⟨held₂.1.trans held₁.1, Program.meets_nil, fun _ => held₁.2.1.trans held₂.2.1⟩

/-- An increment is put together from what is there, and the scopes if it is atomic. -/
theorem recalling_assemble (atomic : Bool) (o : Increment.Operands) : Recalling (assemble atomic o) j fun _ j' =>
    j'.buffer = j.buffer ∧ j'.workspace.program.Meets (CounterBuffer.scopes atomic) ∧
      (j.workspace.program.Meets (CounterBuffer.scopes atomic) →
        j.workspace.program.Gains j'.workspace.program [] [] []) := by
  unfold assemble
  refine (Recalling.of_idle idle_takeId).bind fun pointer j₁ recalls₁ held => ?_
  obtain ⟨buffer₁, gains₁, -⟩ := held
  refine (recalling_addOne atomic o.counterType pointer o.one).bind fun rest j₂ recalls₂ held => ?_
  obtain ⟨buffer₂, met₂, gains₂⟩ := held
  refine (Recalling.of_idle (Keeps.mapM _ fun i _ _ => idle_newInst i)).bind fun refs j₃ recalls₃ held => ?_
  obtain ⟨buffer₃, gains₃, -⟩ := held
  refine (Recalling.of_idle (Keeps.forM fun r _ _ _ => idle_record r)).bind fun _ j₄ recalls₄ held => .pure ?_
  obtain ⟨buffer₄, gains₄, -⟩ := held
  refine ⟨by rw [buffer₄, buffer₃, buffer₂, buffer₁], met₂.later (recalls₃.trans recalls₄).keeps, fun met => ?_⟩
  exact ((gains₁.trans (gains₂ (met.later recalls₁.keeps))).trans gains₃).trans gains₄

/-- Once the variable is there, an increment asks for no more than its demands. -/
theorem recalling_fill (atomic : Bool) (index : Int) (buffer : Id) (kept : j.Kept) :
    Recalling (fill atomic index buffer) j fun _ j' =>
      j'.Kept ∧ j'.buffer.wide = j.buffer.wide ∧ j'.buffer.variableId = j.buffer.variableId ∧
        j'.workspace.program.Meets (j.buffer.demands atomic index) ∧
        (j.workspace.program.Meets (j.buffer.demands atomic index) →
          j.workspace.program.Gains j'.workspace.program [] [] []) := by
  unfold fill
  refine (recalling_pointerTypeId kept).bind fun pointerType j₁ recalls₁ held => ?_
  obtain ⟨kept₁, wide, variableId, address, same₁⟩ := held
  refine recalling_counterTypeId.bind fun counterType j₂ recalls₂ held => ?_
  obtain ⟨buffer₂, counter, same₂⟩ := held
  refine (recalling_constantId 32 0).bind fun member j₃ recalls₃ held => ?_
  obtain ⟨buffer₃, zero, same₃⟩ := held
  refine (recalling_constantId 32 index).bind fun index' j₄ recalls₄ held => .bind_get ?_
  obtain ⟨buffer₄, number, same₄⟩ := held
  refine (recalling_constantId j₄.buffer.width 1).bind fun one j₅ recalls₅ held => ?_
  obtain ⟨buffer₅, one', same₅⟩ := held
  refine (recalling_assemble atomic { pointerType, counterType, buffer, member, index := index', one }).mono
    fun refs j₆ recalls₆ held => ?_
  obtain ⟨buffer₆, scopes, gains⟩ := held
  have remembered : j₆.buffer = j₁.buffer := by rw [buffer₆, buffer₅, buffer₄, buffer₃, buffer₂]
  have width : j₄.buffer.width = j.buffer.width := by
    rw [buffer₄, buffer₃, buffer₂, CounterBuffer.width, CounterBuffer.width, wide]
  rw [width] at one' same₅
  rw [(CounterBuffer.types_congr wide).1] at counter same₂
  -- What is answered on the way is answered to the end.
  have from₅ := recalls₅.trans recalls₆
  have from₄ := recalls₄.trans from₅
  have from₃ := recalls₃.trans from₄
  have from₂ := recalls₂.trans from₃
  refine ⟨kept₁.later from₂ remembered, ?_, ?_, ?_, fun met => ?_⟩
  · rw [remembered, wide]
  · rw [remembered, variableId]
  · simp only [CounterBuffer.demands, Program.meets_append, Program.meets_cons]
    exact ⟨⟨address.imp fun id => from₂.keeps _ id, ⟨counterType, from₃.keeps _ _ counter⟩,
      zero.imp fun id => from₄.keeps _ id, number.imp fun id => from₅.keeps _ id,
      one'.imp fun id => recalls₆.keeps _ id, Program.meets_nil⟩, scopes⟩
  · simp only [CounterBuffer.demands, Program.meets_append, Program.meets_cons] at met
    obtain ⟨⟨address₀, counter₀, zero₀, number₀, one₀, -⟩, scopes₀⟩ := met
    have program₁ := same₁ address₀ counter₀
    have program₂ := (same₂ (program₁ ▸ counter₀)).trans program₁
    have program₃ := (same₃ (program₂ ▸ zero₀)).trans program₂
    have program₄ := (same₄ (program₃ ▸ number₀)).trans program₃
    have program₅ := (same₅ (program₄ ▸ one₀)).trans program₄
    rw [program₅] at gains
    exact gains scopes₀

/-- What an increment leaves: all that it refers to is in stock. If that was so before, there is at most a new
variable. -/
structure Restocks (atomic : Bool) (index : Int) (j j' : Job) : Prop where
  kept : j'.Kept
  wide : j'.buffer.wide = j.buffer.wide
  declared : j'.buffer.variableId ≠ 0
  meets : j'.workspace.program.Meets (j.buffer.demands atomic index)
  gains : j.buffer.variableId ≠ 0 → j.workspace.program.Meets (j.buffer.demands atomic index) →
    j.workspace.program.Gains j'.workspace.program [] [] []
  equips : j.buffer.variableId = 0 → j.buffer.Stocked j.workspace.program →
    j.workspace.program.Meets (j.buffer.demands atomic index) → j.workspace.program.Equips j'.workspace.program

theorem recalling_increment (atomic : Bool) (index : Int) (kept : j.Kept) :
    Recalling (increment atomic index) j fun _ => Restocks atomic index j := by
  rw [increment_eq]
  refine (Recalling.lift Workspace.recalling_needConstants).discard.bind fun _ j₀ recalls₀ held => ?_
  obtain ⟨buffer₀, program₀⟩ := held
  refine (recalling_bufferId (kept.later recalls₀ buffer₀)).bind fun buffer j₁ recalls₁ held => ?_
  rw [buffer₀, program₀] at held
  obtain ⟨kept₁, wide₁, declared, same₁, equips⟩ := held
  refine (recalling_fill atomic index buffer kept₁).mono fun refs j₂ recalls₂ held => ?_
  rw [CounterBuffer.demands_congr wide₁] at held
  obtain ⟨kept₂, wide₂, variableId, meets, gains⟩ := held
  refine ⟨kept₂, wide₂.trans wide₁, variableId ▸ declared, meets, fun before met => ?_, fun none stocked met => ?_⟩
  · rw [same₁ before] at gains
    exact gains met
  · exact (equips none stocked).later recalls₂.grows (gains (met.later (recalls₀.trans recalls₁).keeps))

end Job

end BlockTally
