import BlockTally.Proofs.Counter.Allotment
import BlockTally.Proofs.Draft
import BlockTally.Proofs.Workspace.Services

/-! Sessions: many hands on one module.

A module can be written through a draft, through any number of workspaces and of counter buffers that are provided in
them, and by whole runs, whose hooks may do all this as well. All of them take their ids from the one bound of the
module, so the ids stay distinct whatever the order of the calls is, and whichever of them fail. No workspace has to
know of what the others did.
-/

set_option autoImplicit false

namespace BlockTally

open Change
open scoped List

/-- A module with a cursor for drafts, and with the facts that each workspace found and the buffers that are provided.
The answers are the ids that were told to callers, in order. -/
structure Session where
  program : Program := {}
  cursor : Cursor := {}
  facts : Nat → Facts := fun _ => {}
  buffers : Nat → CounterBuffer := fun _ => {}
  answers : List Id := []

namespace Session

inductive Request where
  | service (service : Workspace.Service)
  | register (id : Id) (ty : Ty)

def Request.run : Request → Action (Option Id)
  | .service wanted => wanted.run
  | .register id ty => do Workspace.registerType id ty; return none

inductive Provided where
  | buffer
  | pointerType
  | counterType

def Provided.run : Provided → Provision (Option Id)
  | .buffer => do discard Job.bufferId; return none
  | .pointerType => do discard Job.pointerTypeId; return none
  | .counterType => do discard Job.counterTypeId; return none

theorem Provided.turns {sized : Value → Prop} {texts : Set Value} {j : Job} (provided : Provided)
    (sizes : Workspace.Sizes (Workspace.turns sized texts) sized j.workspace) :
    (Job.turns (Workspace.Turn sized texts)).Keeps provided.run j fun answer _ => answer = none := by
  have silent {change : Provision Id} {post : Id → Job → Prop}
      (h : (Job.turns (Workspace.Turn sized texts)).Keeps change j post) :
      (Job.turns (Workspace.Turn sized texts)).Keeps
        (do discard change; return none : Provision (Option Id)) j fun answer _ => answer = none :=
    h.discard.seq fun _ _ _ => Account.Keeps.pure rfl
  cases provided with
  | buffer => exact silent (Job.turns_bufferId sizes)
  | pointerType => exact silent (Job.turns_of_pointing (Job.asks_pointerTypeId sizes.asks))
  | counterType => exact silent (Job.turns_of_pointing Job.asks_counterTypeId)

/-- A call, by whomever. The hooks of a run make calls as well, which may depend on what they are told. -/
inductive Call where
  | draft (call : Draft.Call)
  | request (workspace : Nat) (request : Request)
  | provide (workspace buffer : Nat) (provided : Provided)
  | newBuffer (buffer : Nat) (wide : Bool)
  | run (settings : Settings) (onCount : Nat → List Call) (onLabels : Labels → List Call)

/-- Change a part of a session, whether or not the change fails, and note the answer. -/
def perform {τ : Type} (read : Session → τ) (write : Session → τ → Session) (change : Change τ (Option Id))
    (s : Session) : Session :=
  match change (read s) with
  | .ok answer t => { write s t with answers := s.answers ++ answer.toList }
  | .error _ t => write s t

def draft (s : Session) : Draft :=
  { program := s.program, cursor := s.cursor }

def setDraft (s : Session) (d : Draft) : Session :=
  { s with program := d.program, cursor := d.cursor }

def workspace (n : Nat) (s : Session) : Workspace :=
  { program := s.program, facts := s.facts n }

def setWorkspace (n : Nat) (s : Session) (w : Workspace) : Session :=
  { s with program := w.program, facts := Function.update s.facts n w.facts }

def job (n k : Nat) (s : Session) : Job :=
  { workspace := s.workspace n, buffer := s.buffers k }

def setJob (n k : Nat) (s : Session) (j : Job) : Session :=
  { s.setWorkspace n j.workspace with buffers := Function.update s.buffers k j.buffer }

/-- Let a change of the session happen during a run that the session hosts. -/
def during (change : Session → Session) (r : Run Session) : Run Session :=
  let s := change { r.host with program := r.program }
  { r with job.workspace.program := s.program, host := s }

mutual

def Call.after : Call → Session → Session
  | .draft call, s => s.perform Session.draft setDraft call.run
  | .request n asked, s => s.perform (workspace n) (setWorkspace n) asked.run
  | .provide n k provided, s => s.perform (job n k) (setJob n k) provided.run
  | .newBuffer k wide, s => { s with buffers := Function.update s.buffers k { wide } }
  | .run settings onCount onLabels, s =>
    let hooks : Hooks Session :=
      { onCount := fun count => during (Call.afterAll (onCount count))
        onLabels := fun labels => during (Call.afterAll (onLabels labels)) }
    let r := finalState (Run.run settings hooks { job := { workspace := { program := s.program } }, host := s })
    { r.host with program := r.program }

def Call.afterAll : List Call → Session → Session
  | [], s => s
  | call :: rest, s => Call.afterAll rest (call.after s)

end

/-- Ids are allotted, and those that were told are among them in the order in which they were handed out. -/
def Moves (s t : Session) : Prop :=
  ∃ ids told, s.program.Allots ids t.program ∧ t.answers = s.answers ++ told ∧ told <+ ids

variable {s t u : Session}

theorem Moves.of_allots {ids : List Id} (allots : s.program.Allots ids t.program) (same : t.answers = s.answers) :
    Moves s t :=
  ⟨ids, [], allots, by rw [same, List.append_nil], List.nil_sublist _⟩

theorem Moves.trans (first : Moves s t) (second : Moves t u) : Moves s u := by
  obtain ⟨ids, told, allots, answers, among⟩ := first
  obtain ⟨ids', told', allots', answers', among'⟩ := second
  refine ⟨ids ++ ids', told ++ told', allots.trans allots', ?_, among.append among'⟩
  rw [answers', answers, List.append_assoc]

/-- A change of a part that allots its ids, and answers with some of them. -/
theorem moves_perform {τ : Type} {read : Session → τ} {write : Session → τ → Session} {change : Change τ (Option Id)}
    (program : τ → Program) (seen : program (read s) = s.program) (written : ∀ t, (write s t).program = program t)
    (kept : ∀ t, (write s t).answers = s.answers)
    (h : After change (read s) (fun a t => ∃ ids, (program (read s)).Allots ids (program t) ∧ a.toList <+ ids)
      fun _ t => ∃ ids, (program (read s)).Allots ids (program t)) : Moves s (s.perform read write change) := by
  unfold perform
  cases result : change (read s) with
  | ok a t =>
    obtain ⟨ids, allots, among⟩ := h.of_ok result
    rw [seen, ← written] at allots
    exact ⟨ids, a.toList, allots, rfl, among⟩
  | error e t =>
    obtain ⟨ids, allots⟩ := h.of_error result
    rw [seen, ← written] at allots
    exact .of_allots allots (kept t)

/-- What goes in steps and tells no id. -/
theorem after_silent {action : Action (Option Id)} {w : Workspace}
    (h : (Workspace.steps Set.univ).Keeps action w fun answer _ => answer = none) :
    After action w (fun a w' => ∃ ids, w.program.Allots ids w'.program ∧ a.toList <+ ids)
      fun _ w' => ∃ ids, w.program.Allots ids w'.program := by
  refine After.mono h (fun a w' held => ?_) fun _ _ => Workspace.allots_of_fails
  obtain ⟨move, rfl⟩ := held
  obtain ⟨ids, allots⟩ := Workspace.allots_of_steps move
  exact ⟨ids, allots, List.nil_sublist _⟩

theorem Request.allots (request : Request) (w : Workspace) : After request.run w
    (fun a w' => ∃ ids, w.program.Allots ids w'.program ∧ a.toList <+ ids)
    fun _ w' => ∃ ids, w.program.Allots ids w'.program := by
  cases request with
  | service wanted =>
    rcases wanted.run_cases (w := w) .any (fun _ _ => True.intro) fun _ _ _ => Set.mem_univ _ with rfl | rfl | turned
    · exact After.bind (After.modify (After.pure ⟨[], .refl _, .refl _⟩))
    · refine After.bind (Workspace.after_takeId (fun _ => ⟨[], .refl _⟩) fun free => After.pure ?_)
      exact ⟨_, Program.allots_nextBound free, .refl _⟩
    · exact after_silent (Workspace.steps_of_turns turned)
  | register id ty =>
    exact after_silent ((Workspace.steps_registerType id ty).seq fun _ _ _ => Account.Keeps.pure rfl)

theorem Provided.allots (provided : Provided) (j : Job) : After provided.run j
    (fun a j' => ∃ ids, j.workspace.program.Allots ids j'.workspace.program ∧ a.toList <+ ids)
    fun _ j' => ∃ ids, j.workspace.program.Allots ids j'.workspace.program := by
  refine After.mono (provided.turns .any) (fun a j' held => ?_) fun _ _ => Job.allots_of_fails
  obtain ⟨move, rfl⟩ := held
  obtain ⟨ids, allots⟩ := Job.allots_of_turns move
  exact ⟨ids, allots, List.nil_sublist _⟩

def hosting : Contract (Program × Session) where
  moves before after := Moves { before.2 with program := before.1 } { after.2 with program := after.1 }
  exhausted _ := True
  refl before := .of_allots (.refl before.1) rfl
  trans := Moves.trans

theorem allows_hosting : Run.Allows hosting :=
  ⟨fun _ => True.intro, fun _ allots => .of_allots allots rfl⟩

mutual

theorem Call.moves : (call : Call) → (s : Session) → Moves s (call.after s)
  | .draft call, s => by
      unfold Call.after
      exact moves_perform Draft.program rfl (fun _ => rfl) (fun _ => rfl)
        (After.mono call.grants (fun a _ allots => ⟨a.toList, allots, .refl _⟩) fun _ _ failed => failed)
  | .request n asked, s => by
      unfold Call.after
      exact moves_perform Workspace.program rfl (fun _ => rfl) (fun _ => rfl) (asked.allots _)
  | .provide n k provided, s => by
      unfold Call.after
      exact moves_perform (fun j => j.workspace.program) rfl (fun _ => rfl) (fun _ => rfl)
        (provided.allots _)
  | .newBuffer k wide, s => by
      unfold Call.after
      exact .of_allots (.refl _) rfl
  | .run settings onCount onLabels, s => by
      unfold Call.after
      -- The hooks may make calls themselves, which are smaller; so they move the session by induction.
      let hooks : Hooks Session :=
        { onCount := fun count => during (Call.afterAll (onCount count))
          onLabels := fun labels => during (Call.afterAll (onLabels labels)) }
      let start : Run Session := { job := { workspace := { program := s.program } }, host := s }
      have ran : (Run.watched hosting).Keeps (Run.run settings hooks) start fun _ _ => True :=
        Run.keeps_run allows_hosting (fun count r => Call.allMove (onCount count) _)
          fun labels r => Call.allMove (onLabels labels) _
      have moved : After (Run.run settings hooks) start (fun _ r => Moves s { r.host with program := r.program })
          fun _ r => Moves s { r.host with program := r.program } :=
        After.mono ran (fun _ _ held => held.1) fun _ _ failed => failed.1
      exact moved.finalState

theorem Call.allMove : (calls : List Call) → (s : Session) → Moves s (Call.afterAll calls s)
  | [], s => by
      unfold Call.afterAll
      exact .of_allots (.refl _) rfl
  | call :: rest, s => by
      unfold Call.afterAll
      exact (call.moves s).trans (Call.allMove rest _)

end

structure KeepsIds (s t : Session) : Prop where
  distinct : t.program.resultIds.Nodup
  taken : ∀ id ∈ t.program.resultIds, id < t.program.module.idBound
  bound_le : s.program.module.idBound ≤ t.program.module.idBound
  le_bound : t.program.module.idBound ≤ max s.program.module.idBound maxIdBound
  /-- The ids that were handed out, by whichever call, and those of them that were told to callers. -/
  handed : ∃ ids told, s.program.Hands ids t.program ∧ ids.Pairwise (· < ·) ∧
    t.answers = s.answers ++ told ∧ told <+ ids

theorem Moves.keepsIds (h : Moves s t) (fresh : s.program.Fresh) : KeepsIds s t := by
  obtain ⟨ids, told, allots, answers, among⟩ := h
  have bounds := allots.hands.bounds
  have fresh' := allots.fresh fresh
  refine ⟨fresh'.distinct, fresh'.taken, bounds.1, ?_,
    ids, told, allots.hands, allots.hands.increasing.1, answers, among⟩
  rcases bounds.2 with same | below
  · exact Int.le_trans (Int.le_of_eq same) (Int.le_max_left ..)
  · exact Int.le_trans below (Int.le_max_right ..)

/-- Whatever calls are made on a module that lists no function and no block twice, in whatever order, and whether or
not they fail: its result ids stay distinct and below the bound, and ids are handed out in increasing order. -/
theorem keepsIds_of_calls (s : Session) (calls : List Call) (distinct : s.program.resultIds.Nodup)
    (taken : ∀ id ∈ s.program.resultIds, id < s.program.module.idBound) (closed : s.program.Closed)
    (laid : s.program.Laid) : KeepsIds s (Call.afterAll calls s) :=
  (Call.allMove calls s).keepsIds ⟨distinct, taken, closed, laid⟩

/-- A module with a function that it lists twice. It defines no ids so far. -/
def twiceListed : Program where
  instructions := ⟨#[
    { instruction := { opcode := .function } },
    { instruction := { opcode := .label } },
    { instruction := { opcode := .ret }, block := some ⟨0⟩ },
    { instruction := { opcode := .functionEnd } }]⟩
  blocks := ⟨#[{ label := ⟨1⟩, function := some ⟨0⟩, body := [⟨2⟩] }]⟩
  functions := ⟨#[{ definition := ⟨0⟩, blocks := [⟨0⟩], endMark := ⟨3⟩, added := true }]⟩
  module := { functions := [⟨0⟩, ⟨0⟩] }

/-- A parameter of a function that is listed twice is defined twice. -/
theorem repeats_of_function_twice : ¬∀ (s : Session) (calls : List Call), 1 ≤ s.program.module.idBound →
    s.program.Closed → s.program.resultIds.Nodup →
    (∀ id ∈ s.program.resultIds, id < s.program.module.idBound) →
    (Call.afterAll calls s).program.resultIds.Nodup := by
  intro always
  have kept := always { program := twiceListed } [.draft (.function (some ⟨0⟩)), .draft (.newParameter 0)] (by decide)
    (by decide) (by decide) (by decide)
  exact absurd kept (by decide +kernel)

/-- A module is written from nothing and instrumented; one hook declares a type and the other one asks for a name too
few, a parameter is added behind the back of a workspace, and the last block is written nowhere. -/
def sampleCalls : List Call :=
  [.draft .typeVoid, .draft (.typeFunction (.int 1) []), .draft (.newFunction 1 (.int 2) (.int 0)), .draft .newBlock,
   .draft (.block (some ⟨0⟩)), .draft .ret, .draft (.entryPoint (.int 5) (some ⟨0⟩) (.str "main") []),
   .request 0 (.service (.uint (.int 32))), .request 1 (.service .takeId), .draft (.newParameter 1),
   .provide 1 0 .buffer,
   .run {} (fun count => [.draft (.typeInt (.int count) (.int 0))])
     (fun _ => [.request 0 (.service (.decorate (.int 1) []))]),
   .draft (.function none), .draft .newBlock, .request 0 (.service .takeId)]

theorem keepsIds_of_calls_sample : KeepsIds {} (Call.afterAll sampleCalls {}) ∧
    (Call.afterAll sampleCalls {}).answers = [1, 2, 3, 4, 6, 7, 12, 19] := by
  refine ⟨keepsIds_of_calls {} sampleCalls .nil nofun nofun ⟨.nil, .nil, nofun, nofun⟩, ?_⟩
  decide +kernel

end Session

end BlockTally
