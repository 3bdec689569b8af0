import BlockTally.Proofs.Counter.Outcome
import BlockTally.Proofs.Counter.Turns
import BlockTally.Proofs.Program.Spending

/-! Exact accounts of the ids of a run.

The ids that a run hands out are those of the declarations that it adds and those of the increments that it inserts,
each of them once. Declarations that an increment asks for may come between its own ids. In all the steps of a request
an id goes to the declaration that is listed with it; only a request that fails may have taken one for nothing.
-/

set_option autoImplicit false

namespace BlockTally

open Change Account Contract

namespace Increment

def idCount (atomic : Bool) : Nat :=
  if atomic then 2 else 3

variable {counterType pointerType buffer member index result value sum pointer scope semantics one : Id}

theorem ownIds_atomicAdd (nonzero : result ≠ 0) :
    ownIds [atomicAdd counterType result pointer scope semantics one] = [result] := by
  simp [ownIds, Instruction.ownIds, Instruction.hasResult, atomicAdd, nonzero]

/-- The store has no id. -/
theorem ownIds_loadAddStore (valueNonzero : value ≠ 0) (sumNonzero : sum ≠ 0) :
    ownIds (loadAddStore counterType value sum pointer one) = [value, sum] := by
  simp [ownIds, Instruction.ownIds, Instruction.hasResult, loadAddStore, valueNonzero, sumNonzero]

theorem ownIds_address_cons (nonzero : pointer ≠ 0) (rest : List Instruction) :
    ownIds (address pointerType pointer buffer member index :: rest) = pointer :: ownIds rest := by
  simp [ownIds, Instruction.ownIds, Instruction.hasResult, address, nonzero]

end Increment

namespace Workspace

variable {texts : Set Value} {w w' : Workspace}

theorem Aside.spends {targets : Set Value} (aside : w.Aside texts targets w') : w.program.Spends [] w'.program := by
  cases aside with
  | find find => exact find.program_eq ▸ .refl _
  | name | capability | extension => exact Program.spends_listed (by decide) _
  | lengthen => exact Program.spends_withOperand _ _

theorem Step.spends (step : w.Step texts w') : w.program.Spends [] w'.program := by
  cases step with
  | aside aside => exact aside.spends
  | types | constants => exact .refl _
  | declare _ result => exact Program.spends_declared result
  | annotate => exact Program.spends_listed (by decide) _

theorem spends_of_steps (h : (steps texts).moves w w') : w.program.Spends [] w'.program := by
  induction h with
  | refl => exact .refl _
  | tail _ step ih => exact ih.trans step.spends

end Workspace

namespace Job

variable {α β : Type} {lengths : Value → Prop} {j j₁ : Job}

/-- All ids that are taken go to new declarations. Nothing is said of what fails. -/
def spending : Account Job where
  moves j j' := j.workspace.program.Spends [] j'.workspace.program
  fails _ _ _ := True
  refl j := .refl j.workspace.program
  trans := .trans
  later _ _ := True.intro
  refuses _ := True.intro

theorem spends_of_walk {step : Workspace → Workspace → Prop} {w w' : Workspace}
    (each : ∀ {w w'}, step w w' → w.Step ∅ w') (h : Relation.ReflTransGen step w w') :
    w.program.Spends [] w'.program :=
  Workspace.spends_of_steps (walk_moves_mono each h)

theorem spends_uintConstantId (value width : Value) : spending.Keeps
    (liftM (Workspace.uintConstantId value width) : Provision Id) j fun _ _ => True := by
  have asked : (pointing (Workspace.asks fun _ => True)).Keeps
      (liftM (Workspace.uintConstantId value width) : Provision Id)
      j fun _ _ => True := asks_uintConstantId value width
  exact asked.into (fun _ move => spends_of_walk Workspace.Ask.step move.1) fun _ _ _ => True.intro

/-! ### Increments -/

/-- On the way from a job some ids were spent that are not those of declarations, and the next id is not null. -/
structure Spent (j : Job) (own : List Id) (j' : Job) : Prop where
  spends : j.workspace.program.Spends own j'.workspace.program
  positive : 0 < j'.workspace.program.module.idBound

theorem Spent.later {own : List Id} (h : Spent j own j₁) {j' : Job} (move : spending.moves j₁ j') : Spent j own j' where
  spends := List.append_nil own ▸ h.spends.trans move
  positive := Int.lt_of_lt_of_le h.positive move.bound_le

/-- A request goes on from where ids were spent. -/
theorem Spent.bind {own : List Id} {first : Provision α} {next : α → Provision β} {good : β → Job → Prop}
    (h : Spent j own j₁) (before : spending.Keeps first j₁ fun _ _ => True)
    (rest : ∀ a j₂, Spent j own j₂ → After (next a) j₂ good fun _ _ => True) :
    After (first >>= next) j₁ good fun _ _ => True :=
  .bind (.mono before (fun a j₂ held => rest a j₂ (h.later held.1)) fun _ _ _ => True.intro)

/-- One more id is spent. -/
theorem Spent.take {own : List Id} {next : Id → Provision β} {good : β → Job → Prop} (h : Spent j own j₁)
    (rest : ∀ id j₂, id ≠ 0 → Spent j (own ++ [id]) j₂ → After (next id) j₂ good fun _ _ => True) :
    After (do let id ← Program.takeId; next id : Provision β) j₁ good fun _ _ => True := by
  refine .bind (.within (Workspace.after_takeId (fun _ => True.intro) fun _ => rest _ _ (Int.ne_of_gt h.positive) ?_))
  exact ⟨h.spends.trans (Program.spends_nextBound _), Int.lt_trans h.positive (Int.lt_succ _)⟩

/-- The instructions behind the address have the ids that are spent for them. -/
theorem after_addOne_spending {own : List Id} (h : Spent j own j₁) (atomic : Bool) (counterType pointer one : Id) :
    After (addOne atomic counterType pointer one) j₁ (fun rest j' => Spent j (own ++ Increment.ownIds rest) j' ∧
      (Increment.ownIds rest).length + 1 = Increment.idCount atomic) fun _ _ => True := by
  cases atomic with
  | true =>
    unfold addOne
    refine h.bind (spends_uintConstantId _ _) fun scope j₂ h => ?_
    refine h.bind (spends_uintConstantId _ _) fun semantics j₃ h => ?_
    refine h.take fun result j₄ nonzero h => .pure ?_
    rw [Increment.ownIds_atomicAdd nonzero]
    exact ⟨h, rfl⟩
  | false =>
    unfold addOne
    refine h.take fun value j₂ valueNonzero h => h.take fun sum j₃ sumNonzero h => .pure ?_
    rw [Increment.ownIds_loadAddStore valueNonzero sumNonzero]
    rw [List.append_assoc] at h
    exact ⟨h, rfl⟩

structure Pays (atomic : Bool) (j : Job) (refs : List InstRef) (j' : Job) : Prop where
  spends : j.workspace.program.Spends (j'.workspace.program.idsOf refs) j'.workspace.program
  length : (j'.workspace.program.idsOf refs).length = Increment.idCount atomic

theorem spends_newInsts (insts : List Instruction) : spending.Keeps
    (insts.mapM fun i => (liftM (Program.newInst i) : Provision InstRef)) j fun _ _ => True :=
  Keeps.mapM insts fun i _ j => .within (Workspace.after_newInst ⟨j.workspace.program.spends_made i, True.intro⟩)

theorem after_assemble_pays (h : Spent j [] j₁) (atomic : Bool) (o : Increment.Operands) :
    After (assemble atomic o) j₁ (Pays atomic j) fun _ _ => True := by
  unfold assemble
  refine h.take fun pointer j₂ nonzero h => ?_
  refine .bind (.mono (after_addOne_spending h atomic _ _ _) ?_ fun _ _ _ => True.intro)
  rintro rest j₃ ⟨h, length⟩
  let insts := Increment.address o.pointerType pointer o.buffer o.member o.index :: rest
  refine .bind (.mono (After.and (spends_newInsts insts) (@keeps_newInsts False insts j₃)) ?_ fun _ _ _ => True.intro)
  rintro refs j₄ ⟨⟨move, -⟩, -, same, -⟩
  refine .bind (.mono (@after_recordAll False j₄ refs) ?_ fun _ _ => False.elim)
  rintro _ j₅ ⟨-, program⟩
  have own : j₅.workspace.program.idsOf refs = pointer :: Increment.ownIds rest := by
    rw [program, ← Increment.ownIds_address_cons nonzero rest]
    exact (List.flatMap_map ..).symm.trans (congrArg Increment.ownIds same)
  refine .pure ⟨?_, ?_⟩
  · rw [own, program]
    exact (h.later move).spends
  · rw [own, ← length, List.length_cons]

theorem after_increment_pays (positive : 0 < j.workspace.program.module.idBound) (atomic : Bool) (traceIndex : Int) :
    After (increment atomic traceIndex) j (Pays atomic j) fun _ _ => True := by
  have h : Spent j [] j := ⟨.refl _, positive⟩
  have assembled (o : Increment.Operands) (j₁ : Job) (move : (turns (Workspace.Turn (fun _ => True) ∅)).moves j j₁) :
      After (assemble atomic o) j₁ (Pays atomic j) fun _ _ => True :=
    after_assemble_pays (h.later (spends_of_walk Workspace.Turn.step (workspace_of_turns move))) atomic o
  exact after_increment .any (fun _ _ _ => True.intro) assembled

end Job

end BlockTally
