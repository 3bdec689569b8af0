import BlockTally.Proofs.Counter.Outcome
import BlockTally.Proofs.Counter.Upkeep
import BlockTally.Proofs.Workspace.Services
import Mathlib.Data.List.Induction

/-! Facts after any operations.

The operations of a workspace can come in any order, and each kind of facts can be found at any point between them.
The facts that are there in the end are those that a fresh look at the program would find.
-/

set_option autoImplicit false

namespace BlockTally

variable {σ τ α : Type}

namespace Change

/-- Let a change of a whole act on a part, in the whole that is built around it. -/
def inside (build : τ → σ) (read : σ → τ) (change : Change σ α) : Change τ Unit := fun t =>
  match change (build t) with
  | .ok _ s => .ok () (read s)
  | .error e s => .error e (read s)

theorem After.inside {build : τ → σ} {read : σ → τ} {change : Change σ α} {t : τ} {good : Unit → τ → Prop}
    {bad : Error → τ → Prop}
    (h : After change (build t) (fun _ s => good () (read s)) fun e s => bad e (read s)) :
    After (Change.inside build read change) t good bad := by
  simp only [After, Change.inside] at *
  split at h <;> simp_all

end Change

namespace Program

def New (p : Program) (r : InstRef) : Prop :=
  p.Holds r ∧ r ∉ p.allInsts ∧ (p.inst r).resultId ∉ p.resultIds

instance (p : Program) (r : InstRef) : Decidable (p.New r) :=
  inferInstanceAs (Decidable (_ ∧ _ ∧ _))

theorem New.unlisted {p : Program} {r : InstRef} (h : p.New r) (place : Section) : p.Unlisted place r :=
  ⟨h.1, h.2.1, .inl h.2.2⟩

end Program

namespace Workspace

/-- What can be done with a workspace: ask for its services, make and list instructions, append operands, and ask for
the counter buffer and increments. -/
inductive Operation where
  | service (wanted : Service)
  | make (i : Instruction)
  | global (r : InstRef)
  | debug (r : InstRef)
  | note (r : InstRef)
  | lengthen (r : InstRef) (operand : Operand)
  | buffer (b : CounterBuffer)
  | instrument (b : CounterBuffer) (labels : Labels) (atomic : Bool) (f : FuncRef)

namespace Operation

def run : Operation → Action Unit
  | .service wanted => discard wanted.run
  | .make i => discard (liftM (Program.newInst i) : Action InstRef)
  | .global r => addGlobal r
  | .debug r => addName r
  | .note r => addAnnotation r
  | .lengthen r operand => do
    Program.addOperand r operand
    recordUses r
  | .buffer b => Change.inside (fun w => { workspace := w, buffer := b }) Job.workspace Job.bufferId
  | .instrument b labels atomic f =>
    Change.inside (fun w => { job := { workspace := w, buffer := b }, labels, host := () })
      (fun (r : Run Unit) => r.job.workspace) (Run.instrumentFunction atomic f)

def after (w : Workspace) (op : Operation) : Workspace :=
  Change.finalState (op.run w)

/-- Listed instructions have to be new, and an annotation has to be accepted. Operands go to instructions of the
module, and increments into its functions. -/
def Allowed (w : Workspace) : Operation → Prop
  | .global r | .debug r => w.program.New r
  | .note r => w.program.New r ∧ Change.answer? (( addAnnotation r) w) = some ()
  | .lengthen r _ => r ∈ w.program.allInsts
  | .instrument _ _ _ f => f ∈ w.program.module.functions
  | _ => True

instance (w : Workspace) (op : Operation) : Decidable (op.Allowed w) := by
  cases op <;> unfold Allowed <;> infer_instance

def AllAllowed : Workspace → List Operation → Prop
  | _, [] => True
  | w, op :: rest => op.Allowed w ∧ AllAllowed (op.after w) rest

instance decidableAllAllowed : (w : Workspace) → (ops : List Operation) → Decidable (AllAllowed w ops)
  | _, [] => .isTrue True.intro
  | w, op :: rest => @instDecidableAnd _ _ _ (decidableAllAllowed (op.after w) rest)

/-- The capabilities that were given when the features were known, and whose features are known still. -/
def told (w : Workspace) (ops : List Operation) : Set Value :=
  {c | ∃ before rest, ops = before ++ .service (.capability c) :: rest ∧
    (before.foldl after w).facts.features ≠ none ∧ .service .forget ∉ rest}

end Operation

variable {w : Workspace} {texts : Set Value}

theorem tracked_of_after {change : Action α}
    (k : Change.After change w (fun _ w' => w'.Tracked texts) fun _ w' => w'.Tracked texts) :
    (Change.finalState (change w)).Tracked texts :=
  k.finalState

theorem tracked_finalState {change : Action α} {post : α → Workspace → Prop} (h : w.Tracked texts)
    (k : (upkeep texts).Keeps change w post) : (Change.finalState (change w)).Tracked texts :=
  tracked_of_after (Change.After.mono k (fun _ _ held => held.1.2 h) fun _ _ held => held.1.2 h)

/-- One operation leaves the facts with the program. A capability that is told to the features may be one of the
texts. -/
theorem Tracked.after {op : Operation} (h : w.Tracked texts) (allowed : op.Allowed w)
    (given : ∀ c, op = .service (.capability c) → w.facts.features ≠ none → c ∈ texts) :
    (op.after w).Tracked texts := by
  unfold Operation.after
  -- Services go in steps, and what goes in steps follows the program. The others list or lengthen instructions by
  -- hand, or are done by a job or a run.
  cases op with
  | service wanted =>
    rcases wanted.run_cases .any (fun _ _ => True.intro) fun c same => given c (congrArg _ same) with rfl | rfl | turned
    · exact tracked_of_after (Change.After.modify ⟨h.orderly, ⟨nofun, nofun⟩, nofun⟩)
    · refine tracked_of_after (Change.After.discard (.bind (after_takeId (fun _ => h) fun free => .pure ?_)))
      exact h.nextBound
    · exact tracked_finalState h (follows (steps_of_turns turned)).discard
  | make i => exact tracked_of_after (Change.After.discard (after_newInst (h.made i)))
  | global r => exact tracked_finalState h (follows_addGlobal h (allowed.unlisted _))
  | debug r => exact tracked_finalState h (follows_addName h (allowed.unlisted _))
  | note r =>
    obtain ⟨new, accepted⟩ := allowed
    have done := Change.eq_ok_of_answer accepted
    exact ((after_attach h (new.unlisted _)).of_ok done).2 h
  | lengthen r operand => exact tracked_of_after (after_longer (h.longer operand allowed))
  | buffer b =>
    have kept : (Job.upkeep texts).Keeps Job.bufferId { workspace := w, buffer := b } fun _ _ => True :=
      Job.follows (Job.turns_bufferId .any)
    refine tracked_of_after (Change.After.inside (Change.After.mono kept ?_ ?_))
    · exact fun _ _ held => held.1.2 h
    · exact fun _ _ held => held.1.2 h
  | instrument b labels atomic f =>
    let r : Run Unit := { job := { workspace := w, buffer := b }, labels, host := () }
    have kept := Run.after_instrumentFunction_follows (r := r) atomic h allowed
    refine tracked_of_after (Change.After.inside (Change.After.mono kept ?_ ?_))
    · exact fun _ _ held => held.tracked
    · exact fun _ _ held => held.tracked

/-- Facts that are dropped do not have to agree with anything. -/
theorem Tracked.forget {texts' : Set Value} (h : w.Tracked texts) :
    (Operation.after w (.service .forget)).Tracked texts' :=
  ⟨h.orderly, ⟨nofun, nofun⟩, nofun⟩

theorem allAllowed_append {ops : List Operation} {op : Operation} (h : Operation.AllAllowed w (ops ++ [op])) :
    Operation.AllAllowed w ops ∧ op.Allowed (ops.foldl Operation.after w) := by
  induction ops generalizing w with
  | nil => exact ⟨True.intro, h.1⟩
  | cons first rest ih =>
    obtain ⟨before, last⟩ := ih h.2
    exact ⟨⟨h.1, before⟩, last⟩

/-- What was told is told still, unless the facts are dropped. -/
theorem told_append {ops : List Operation} {op : Operation} (kept : op ≠ .service .forget) :
    Operation.told w ops ⊆ Operation.told w (ops ++ [op]) := by
  rintro c ⟨before, rest, rfl, known, none⟩
  refine ⟨before, rest ++ [op], by simp, known, fun member => ?_⟩
  rcases List.mem_append.mp member with among | last
  · exact none among
  · exact kept (List.mem_singleton.mp last).symm

theorem Tracked.afterAll {ops : List Operation} (h : w.Tracked ∅) (allowed : Operation.AllAllowed w ops) :
    (ops.foldl Operation.after w).Tracked (Operation.told w ops) := by
  -- The induction is on the operations before the last one, since what was told hangs on all that came before.
  induction ops using List.reverseRecOn with
  | nil => exact h.mono (Set.empty_subset _)
  | append_singleton ops op ih =>
    obtain ⟨before, last⟩ := allAllowed_append allowed
    have tracked := ih before
    rw [List.foldl_append, List.foldl_cons, List.foldl_nil]
    by_cases dropped : op = .service .forget
    · exact dropped ▸ tracked.forget
    · refine Tracked.after (tracked.mono (told_append dropped)) last ?_
      rintro c rfl known
      exact ⟨ops, [], rfl, known, List.not_mem_nil⟩

/-- The facts that were found agree with those that a fresh look at the program finds, where the texts may stand for
their numbers among the capabilities. -/
structure Live (w : Workspace) (texts : Set Value) : Prop where
  uses : ∀ u, w.facts.uses = some u → u.Agrees (Uses.ofProgram w.program)
  annotations : ∀ a, w.facts.annotations = some a →
    ∃ a', Annotations.ofProgram w.program = .ok a' ∧ ∀ target, a.on target = a'.on target
  features : ∀ f, w.facts.features = some f → ∃ f', Features.ofProgram w.program = .ok f' ∧ f.Agrees texts f'

theorem Tracked.live (h : w.Tracked texts) : w.Live texts where
  uses u found := (h.uses u found).agrees (Uses.ofProgram_indexes h.orderly.distinct)
  annotations a found := ⟨a, h.reading.annotations a found, fun _ => rfl⟩
  features f found := (h.reading.features f found).exists_ofProgram

theorem Live.exact (h : w.Live texts) (numbers : ∀ t ∈ texts, ∃ n, t = .int n) : w.Live ∅ where
  uses := h.uses
  annotations := h.annotations
  features f found := by
    obtain ⟨f', read, agrees⟩ := h.features f found
    exact ⟨f', read, agrees.capabilities.exact numbers, agrees.extensions⟩

/-- Facts stay up to date from when they are found, whatever operations come before and after. If capabilities are given
as numbers, all facts do; otherwise a text that the features were told of stands there for its number. -/
theorem live_of_operations {p : Program} {ops : List Operation} (distinct : p.allInsts.Nodup) (closed : p.Closed)
    (bounded : ∀ id ∈ p.resultIds, id < p.module.idBound) (allowed : Operation.AllAllowed { program := p } ops) :
    (ops.foldl Operation.after { program := p }).Live (Operation.told { program := p } ops) ∧
      ((∀ c, .service (.capability c) ∈ ops → ∃ n, c = .int n) →
        (ops.foldl Operation.after { program := p }).Live ∅) := by
  have taken : ∀ id ∈ p.idsOf p.functionPart, id < p.module.idBound := by
    intro id member
    obtain ⟨r, among, result, nonzero⟩ := Program.mem_idsOf.mp member
    exact bounded id (Program.mem_resultIds.mpr ⟨r, p.functionPart_subset among, result, nonzero⟩)
  have start : Tracked { program := p } ∅ := ⟨⟨distinct, closed, taken⟩, ⟨nofun, nofun⟩, nofun⟩
  have live := (start.afterAll allowed).live
  refine ⟨live, fun numbers => live.exact ?_⟩
  rintro c ⟨before, rest, rfl, -⟩
  exact numbers c (List.mem_append_right _ (List.mem_cons_self ..))

/-- A capability can be given as a text. Where the features are known they have the text, and the module has the
number. -/
theorem not_live_of_operations : ¬∀ (p : Program) (ops : List Operation), p.allInsts.Nodup → p.Closed →
    (∀ id ∈ p.resultIds, id < p.module.idBound) → Operation.AllAllowed { program := p } ops →
    (ops.foldl Operation.after { program := p }).Live ∅ := by
  intro always
  have live := always {} [.service .needFeatures, .service (.capability (.str "11"))] (by decide) (by decide)
    (by decide) ⟨True.intro, True.intro, True.intro⟩
  obtain ⟨f', read, agrees⟩ := live.features { capabilities := [.str "11"] } (by decide +kernel)
  obtain ⟨v, among, rfl | ⟨none, -⟩⟩ := agrees.capabilities.value (.str "11") (List.mem_singleton_self _)
  · obtain rfl : f' = { capabilities := [.int 11] } := Except.ok.inj (read.symm.trans (by decide +kernel))
    exact absurd among (by decide : Value.str "11" ∉ [Value.int 11])
  · exact none.elim

/-- Facts are found before, between and after edits of a module with two functions, one of which is instrumented. -/
def sampleOperations : List Operation :=
  [.service .needUses, .service (.capability (.int 1)), .service .needFeatures, .service .takeId,
   .make { opcode := .typeBool, resultId := 8 }, .global ⟨13⟩, .service .needAnnotations,
   .make { opcode := .decorate, operands := [.ofId (.int 8), .literal (.int 2)] }, .note ⟨14⟩,
   .lengthen ⟨2⟩ (.ofId (.int 8)), .instrument {} ⟨[(4, 0), (7, 1)]⟩ true ⟨0⟩,
   .service (.extension (.str "SPV_sample")), .service (.decorateMember (.int 8) [.int 0, .int 35, .int 0]),
   .service (.uintConstant (.int 7) (.int 32))]

theorem live_of_operations_sample : ∃ u a f,
    (sampleOperations.foldl Operation.after { program := Run.sample 8 }).facts.uses = some u ∧
    (sampleOperations.foldl Operation.after { program := Run.sample 8 }).facts.annotations = some a ∧
    (sampleOperations.foldl Operation.after { program := Run.sample 8 }).facts.features = some f ∧
    (sampleOperations.foldl Operation.after { program := Run.sample 8 }).Live ∅ := by
  have numbers (c : Value) (member : .service (.capability c) ∈ sampleOperations) : ∃ n, c = .int n := by
    simp only [sampleOperations, List.mem_cons, List.not_mem_nil, Operation.service.injEq,
      Service.capability.injEq, reduceCtorEq, or_false,
      false_or] at member
    exact ⟨1, member⟩
  have live := live_of_operations (p := Run.sample 8) (show (Run.sample 8).allInsts.Nodup by decide +kernel)
    (by decide +kernel) (by decide +kernel)
    (show Operation.AllAllowed _ sampleOperations by decide +kernel)
  obtain ⟨u, uses⟩ := Option.isSome_iff_exists.mp
    (show (sampleOperations.foldl Operation.after { program := Run.sample 8 }).facts.uses.isSome by decide +kernel)
  obtain ⟨a, annotations⟩ := Option.isSome_iff_exists.mp
    (show (sampleOperations.foldl Operation.after { program := Run.sample 8 }).facts.annotations.isSome by
      decide +kernel)
  obtain ⟨f, features⟩ := Option.isSome_iff_exists.mp
    (show (sampleOperations.foldl Operation.after { program := Run.sample 8 }).facts.features.isSome by
      decide +kernel)
  exact ⟨u, a, f, uses, annotations, features, live.2 numbers⟩

end Workspace

end BlockTally
