import BlockTally.Counter.Run
import BlockTally.Proofs.Counter.Turns
import BlockTally.Proofs.Program.Allotment

/-! The allotment of ids in requests and runs.

This holds of any workspace, whatever its facts are: they decide which ids are taken, not what becomes of them.
-/

set_option autoImplicit false

namespace BlockTally

open Change Account Contract
open scoped List

variable {α β σ : Type} {ids own : List Id}

namespace Workspace

variable {texts : Set Value} {w w' : Workspace}

theorem Aside.allots {targets : Set Value} (h : w.Aside texts targets w') : w.program.Allots [] w'.program := by
  cases h with
  | find find => exact find.program_eq ▸ .refl _
  | name noResult => exact Program.Owes.appended (Instruction.ownIds_eq_nil noResult ▸ w.program.owes_none) .debugs2
  | capability => exact Program.Owes.appended w.program.owes_none .capabilities
  | extension => exact Program.Owes.appended w.program.owes_none .extensions
  | lengthen => exact Program.allots_withOperand _ _

/-- Each step allots what it takes. -/
theorem Step.allots (h : w.Step texts w') : ∃ ids, w.program.Allots ids w'.program := by
  cases h with
  | aside aside => exact ⟨[], aside.allots⟩
  | types | constants => exact ⟨[], .refl _⟩
  | declare free result =>
    have taken := (w.program.owes_none.take free).part (result ▸ Instruction.ownIds_sublist _)
    exact ⟨_, taken.appended .typesValues⟩
  | annotate noResult =>
    exact ⟨[], Program.Owes.appended (Instruction.ownIds_eq_nil noResult ▸ w.program.owes_none) .annotations⟩

theorem allots_of_steps (h : (steps texts).moves w w') : ∃ ids, w.program.Allots ids w'.program := by
  induction h with
  | refl => exact ⟨[], .refl _⟩
  | tail _ step ih =>
    obtain ⟨ids, before⟩ := ih
    obtain ⟨more, last⟩ := step.allots
    exact ⟨ids ++ more, before.trans last⟩

theorem allots_of_fails {e : Error} (h : (steps texts).fails w e w') : ∃ ids, w.program.Allots ids w'.program := by
  obtain ⟨u, walked, ended⟩ := h
  obtain ⟨ids, before⟩ := allots_of_steps walked
  cases ended with
  | refl => exact ⟨ids, before⟩
  | single lost =>
    cases lost with
    | id free => exact ⟨_, before.trans (Program.allots_nextBound free)⟩

end Workspace

namespace Job

variable {p : Program} {j j' : Job}

theorem allots_of_turns (h : (turns (Workspace.Turn (fun _ => True) ∅)).moves j j') :
    ∃ ids, j.workspace.program.Allots ids j'.workspace.program :=
  Workspace.allots_of_steps (walk_moves_mono Workspace.Turn.step (workspace_of_turns h))

theorem allots_of_fails {e : Error} (h : (turns (Workspace.Turn (fun _ => True) ∅)).fails j e j') :
    ∃ ids, j.workspace.program.Allots ids j'.workspace.program :=
  Workspace.allots_of_fails (walk_fails_mono Workspace.Turn.step (workspace_of_fails h))

/-- A change that goes on in turns while ids are owed. -/
theorem after_turns_owing {first : Provision α} {next : α → Provision β} {post : α → Job → Prop}
    {good : β → Job → Prop} (h : ∃ ids, p.Owes ids j.workspace.program own)
    (before : (turns (Workspace.Turn (fun _ => True) ∅)).Keeps first j post)
    (rest : ∀ a j', (∃ ids, p.Owes ids j'.workspace.program own) →
      After (next a) j' good fun _ j'' => ∃ ids, p.Allots ids j''.workspace.program) :
    After (first >>= next) j good fun _ j'' => ∃ ids, p.Allots ids j''.workspace.program := by
  obtain ⟨ids, owes⟩ := h
  refine .bind (.mono before (fun a j' held => rest a j' ?_) fun e j' failed => ?_)
  · obtain ⟨more, later⟩ := allots_of_turns held.1
    exact ⟨ids ++ more, owes.later later⟩
  · obtain ⟨more, later⟩ := allots_of_fails failed
    exact ⟨ids ++ more, (owes.later later).allots⟩

theorem after_takeId_owing (h : ∃ ids, p.Owes ids j.workspace.program own) :
    After (liftM Program.takeId : Provision Id) j
      (fun id j' => ∃ ids, p.Owes ids j'.workspace.program (own ++ [id]))
      fun _ j' => ∃ ids, p.Allots ids j'.workspace.program := by
  obtain ⟨ids, owes⟩ := h
  exact .within (Workspace.after_takeId (fun _ => ⟨ids, owes.allots⟩) fun free => ⟨_, owes.take free⟩)

theorem after_addOne_owing (h : ∃ ids, p.Owes ids j.workspace.program own) (atomic : Bool)
    (counterType pointer one : Id) : After (addOne atomic counterType pointer one) j
      (fun rest j' => ∃ ids, p.Owes ids j'.workspace.program (own ++ Increment.ownIds rest))
      fun _ j' => ∃ ids, p.Allots ids j'.workspace.program := by
  cases atomic with
  | true =>
    unfold addOne
    refine after_turns_owing h (turns_uintConstantId _ _) fun scope j₁ h => ?_
    refine after_turns_owing h (turns_uintConstantId _ _) fun semantics j₂ h => ?_
    refine .bind (.mono (after_takeId_owing h) (fun result j₃ held => .pure ?_) fun _ _ failed => failed)
    obtain ⟨ids, owes⟩ := held
    refine ⟨ids, owes.part (List.Sublist.append_left ?_ own)⟩
    exact (Instruction.ownIds_sublist _).append (.refl [])
  | false =>
    unfold addOne
    refine .bind (.mono (after_takeId_owing h) (fun value j₁ h => ?_) fun _ _ failed => failed)
    refine .bind (.mono (after_takeId_owing h) (fun sum j₂ held => .pure ?_) fun _ _ failed => failed)
    obtain ⟨ids, owes⟩ := held
    refine ⟨ids, owes.part ?_⟩
    rw [List.append_assoc]
    refine List.Sublist.append_left ?_ own
    -- The store has no result.
    exact (Instruction.ownIds_sublist _).append ((Instruction.ownIds_sublist _).append (.refl []))

def creating : Contract Job where
  moves j j' := j.workspace.program.Allots [] j'.workspace.program
  exhausted _ := True
  refl _ := .refl _
  trans := .edit

theorem after_assemble (atomic : Bool) (o : Increment.Operands) : After (assemble atomic o) j
    (fun refs j' => (∃ ids, j.workspace.program.Owes ids j'.workspace.program (j'.workspace.program.idsOf refs)) ∧
      ∀ r ∈ refs, j'.workspace.program.Holds r)
    fun _ j' => ∃ ids, j.workspace.program.Allots ids j'.workspace.program := by
  unfold assemble
  refine .bind (.mono (after_takeId_owing ⟨[], j.workspace.program.owes_none⟩) (fun pointer j₁ h => ?_)
    fun _ _ failed => failed)
  refine .bind (.mono (after_addOne_owing h atomic _ _ _) (fun rest j₂ h => ?_) fun _ _ failed => failed)
  obtain ⟨ids, owes⟩ := h
  let insts := Increment.address o.pointerType pointer o.buffer o.member o.index :: rest
  have make : creating.Keeps (insts.mapM fun i => (liftM (Program.newInst i) : Provision InstRef)) j₂ fun _ _ => True :=
    Keeps.mapM insts fun i _ _ => Change.After.within (Workspace.after_newInst ⟨Program.allots_made i, True.intro⟩)
  refine .bind (.mono (make.and (@keeps_newInsts False insts j₂)) ?_ fun _ j₃ held => ⟨ids, owes.allots.edit held.1.1⟩)
  -- The making of instructions hands out no ids, so what is owed stays the same.
  rintro refs j₃ ⟨⟨made, -⟩, -, same, new, -, -⟩
  refine .bind (.mono (@after_recordAll False j₃ refs) ?_ fun _ _ => False.elim)
  rintro _ j₄ ⟨-, program⟩
  have own : j₄.workspace.program.idsOf refs = Increment.ownIds insts := by
    rw [program, ← same, Increment.ownIds, List.flatMap_map]
    rfl
  refine .pure ⟨⟨ids, ?_⟩, program ▸ fun r member => (new r member).2⟩
  rw [own, program]
  exact (owes.part ((Instruction.ownIds_sublist _).append_right _)).edit made

/-- An increment was made for a block, and what it defines is owed until it is inserted. -/
theorem after_increment_owing (atomic : Bool) (traceIndex : Int) : After (increment atomic traceIndex) j
    (fun refs j' => (∃ ids, j.workspace.program.Owes ids j'.workspace.program (j'.workspace.program.idsOf refs)) ∧
      ∀ r ∈ refs, j'.workspace.program.Holds r)
    fun _ j' => ∃ ids, j.workspace.program.Allots ids j'.workspace.program := by
  refine after_increment .any (fun _ _ => allots_of_fails) fun o j₁ reached => ?_
  obtain ⟨ids, before⟩ := allots_of_turns reached
  refine .mono (after_assemble atomic o) ?_ ?_
  · rintro refs j₂ ⟨⟨more, owes⟩, held⟩
    exact ⟨⟨ids ++ more, owes.after before⟩, held⟩
  · rintro _ j₂ ⟨more, last⟩
    exact ⟨ids ++ more, before.trans last⟩

end Job

namespace Run

variable {r : Run σ} {C : Contract (Program × σ)} {settings : Settings} {hooks : Hooks σ}

/-- What a run does to the program, in the eyes of its host. -/
def watched (C : Contract (Program × σ)) : Contract (Run σ) where
  moves r r' := C.moves (r.program, r.host) (r'.program, r'.host)
  exhausted r := C.exhausted (r.program, r.host)
  refl _ := C.refl _
  trans := C.trans

def Allows (C : Contract (Program × σ)) : Prop :=
  C.Lenient ∧ ∀ {p q ids} (host : σ), p.Allots ids q → C.moves (p, host) (q, host)

section
variable (allows : Allows C)
include allows

theorem watched_lenient : (watched C).account.Lenient := Contract.Lenient.account fun _ => allows.1 _

theorem keeps_instrumentBlock (atomic : Bool) (b : BlockRef) :
    (watched C).Keeps (instrumentBlock atomic b) r fun _ _ => True := by
  unfold instrumentBlock
  apply Keeps.bind_get
  dsimp only
  split
  · exact Keeps.pure True.intro
  · split
    · exact Keeps.throw_lenient (watched_lenient allows)
    · refine After.bind (After.within (After.mono (Job.after_increment_owing atomic _) ?_ ?_))
      · rintro refs j ⟨⟨ids, owes⟩, held⟩
        refine .bind (.within (.within (.within (Program.after_insertInsts (.bind (.modify (.pure ?_)))))))
        exact ⟨allows.2 r.host (owes.inserted held b _), True.intro⟩
      · rintro e j ⟨ids, allots⟩
        exact ⟨allows.2 r.host allots, fun _ => allows.1 _⟩

theorem keeps_instrumentFunction (atomic : Bool) (f : FuncRef) :
    (watched C).Keeps (instrumentFunction atomic f) r fun _ _ => True := by
  unfold instrumentFunction
  apply Keeps.bind_get
  refine Keeps.foldlM (fun _ _ _ => True) True.intro fun _ b _ changed r' _ _ _ => ?_
  exact (keeps_instrumentBlock allows atomic b).seq fun _ _ _ => Keeps.pure True.intro

theorem keeps_anyChange (atomic : Bool) (tour : Tour) :
    (watched C).Keeps (tour.anyChange (instrumentFunction atomic)) r fun _ _ => True := by
  unfold Tour.anyChange Tour.foldM
  refine Keeps.seq (Keeps.foldlM (fun _ _ _ => True) True.intro fun _ f _ changed r' _ _ _ => ?_) fun _ r' _ => ?_
  · exact (keeps_instrumentFunction allows atomic f).seq fun _ _ _ => Keeps.pure True.intro
  · split
    · exact Keeps.throw_lenient (watched_lenient allows)
    · exact Keeps.pure True.intro

/-- A run does nothing else than to let its hooks act, and to allot ids. -/
theorem keeps_run (onCount : ∀ count r, (watched C).moves r (hooks.onCount count r))
    (onLabels : ∀ labels r, (watched C).moves r (hooks.onLabels labels r)) :
    (watched C).Keeps (run settings hooks) r fun _ _ => True := by
  have silent {r : Run σ} {f : Run σ → Run σ} (program : (f r).program = r.program) (host : (f r).host = r.host) :
      (watched C).Keeps (modify f) r fun _ _ => True := by
    have move : C.moves (r.program, r.host) ((f r).program, (f r).host) := by
      rw [program, host]
      exact C.refl _
    exact After.modify ⟨move, True.intro⟩
  unfold run
  refine (silent rfl rfl).seq fun _ r₁ _ => Keeps.bind_get (Keeps.after_check (watched_lenient allows) fun labels => ?_)
  refine (silent rfl rfl).seq fun _ r₂ _ => (Keeps.modify (onCount _ _)).seq fun _ r₃ _ => ?_
  refine (Keeps.modify (onLabels _ _)).seq fun _ r₄ _ => Keeps.bind_get ?_
  refine Keeps.after_check (watched_lenient allows) fun tour => ?_
  refine (keeps_anyChange allows settings.atomic tour).seq fun changed r₅ _ => ?_
  have forgotten : (watched C).Keeps (liftM Workspace.forgetFacts) r₅ fun _ _ => True :=
    After.within (After.within (After.modify ⟨C.refl _, True.intro⟩))
  exact forgotten.seq fun _ _ _ => Keeps.pure True.intro

end

end Run

end BlockTally
