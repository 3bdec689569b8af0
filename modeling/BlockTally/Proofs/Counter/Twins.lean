import BlockTally.Proofs.Calls.Twins
import BlockTally.Proofs.Counter.Outcome
import BlockTally.Proofs.Counter.Pairing

/-! Only the reachable part of a module has a part in a run.

Runs on modules with the same reachable part number the blocks alike, make the same declarations and put the same
increments into the blocks, or fail alike. In what order the functions stand, and what the others contain, does not
matter.
-/

set_option autoImplicit false

namespace BlockTally

open Change

variable {σ τ : Type} {ρ : Pairing} {p q : Program} {b c : BlockRef} {f g : FuncRef}

/-! ### Tours -/

namespace Program.ToursAlike

variable {α β : Type} {S : α → β → Prop} {tour tour' : Tour} {a : α} {a' : β}

theorem foldM_corresponds (h : ToursAlike ρ tour tour') {visit : α → FuncRef → Except Error α}
    {visit' : β → FuncRef → Except Error β} (start : S a a')
    (each : ∀ f g, ρ.functions f g → ∀ a a', S a a' → Corresponds S (visit a f) (visit' a' g)) :
    Corresponds S (tour.foldM visit a) (tour'.foldM visit' a') := by
  unfold Tour.foldM
  refine (Corresponds.foldlM h.visited start each).bind fun last last' related => ?_
  rw [h.missing]
  cases tour.missing with
  | none => exact .ok related
  | some id => exact .error _

theorem foldM_agrees (h : ToursAlike ρ tour tour') {Rel : σ → τ → Prop} {visit : α → FuncRef → Change σ α}
    {visit' : β → FuncRef → Change τ β} (start : S a a')
    (each : ∀ f g, ρ.functions f g → ∀ a a', S a a' → Agrees Rel (visit a f) (visit' a' g) S) :
    Agrees Rel (tour.foldM visit a) (tour'.foldM visit' a') S := by
  unfold Tour.foldM
  refine (Agrees.foldlM h.visited start each).bind fun last last' related => ?_
  rw [h.missing]
  cases tour.missing with
  | none => exact .pure related
  | some id => exact .throw _

end Program.ToursAlike

/-! ### Numbering -/

namespace Program

theorem labelFunction_alike (h : p.Alike ρ q) (paired : ρ.functions f g) (labels : Labels) :
    Corresponds Eq (p.labelFunction labels f) (q.labelFunction labels g) := by
  refine .foldlM (h.function paired).blocks rfl fun b c block labels labels' same => ?_
  unfold labelBlock
  rw [h.blockId block, h.functionId paired, same]
  exact .refl _

/-- The blocks get the same numbers. -/
theorem blockLabels_alike (h : p.Alike ρ q) (tours : Corresponds (ToursAlike ρ) p.entryTour q.entryTour) :
    q.blockLabels = p.blockLabels := by
  refine (Corresponds.eq ?_).symm
  refine tours.bind fun tour tour' alike => alike.foldM_corresponds rfl fun f g paired labels labels' same => ?_
  exact same ▸ labelFunction_alike h paired labels

theorem agrees_insertInsts (gap : Nat) (old : b.index < ρ.count) (old' : c.index < ρ.count') (paired : ρ.blocks b c)
    {refs refs' : List InstRef} (listed : List.Forall₂ ρ.insts refs refs') :
    Agrees (Alike ρ) (insertInsts b gap refs) (insertInsts c gap refs') Eq :=
  fun _ _ alike => .ok rfl (alike.inserted gap old old' paired listed)

end Program

/-! ### Counting -/

namespace Run

structure Alike (ρ : Pairing) (r : Run σ) (s : Run τ) : Prop where
  job : r.job.Alike True ρ s.job
  labels : s.labels = r.labels
  instrumented : s.instrumented = r.instrumented

theorem Alike.program {r : Run σ} {s : Run τ} (h : r.Alike ρ s) : r.program.Alike ρ s.program :=
  h.job.workspace.program

theorem agrees_job {α β : Type} {R : α → β → Prop} {provision : Provision α} {provision' : Provision β}
    (h : Agrees (Job.Alike True ρ) provision provision' R) :
    Agrees (Alike ρ) (liftM provision : Running σ α) (liftM provision' : Running τ β) R :=
  .within h (fun _ _ alike => alike.job) fun _ _ _ _ alike job => { alike with job }

theorem agrees_instrumentBlock (atomic : Bool) (paired : ρ.blocks b c) :
    Agrees (Alike ρ) (instrumentBlock atomic b : Running σ Bool) (instrumentBlock atomic c : Running τ Bool) Eq := by
  unfold instrumentBlock
  refine .bind_get fun r s alike => ?_
  have body := alike.program.body paired
  dsimp only
  rw [alike.program.insertionPoint paired, ← body.length_eq, alike.program.blockId paired, alike.labels]
  split
  · exact .pure rfl
  next behind =>
  split
  · exact .throw _
  next number _ =>
  -- There is something behind the insertion point, so both blocks were made.
  have some : r.program.body b ≠ [] := Program.body_ne_nil behind
  have some' : s.program.body c ≠ [] := fun none => some (List.forall₂_nil_right_iff.mp (none ▸ body))
  have old : b.index < ρ.count := alike.program.count ▸ Program.index_lt_of_body some
  have old' : c.index < ρ.count' := alike.program.count' ▸ Program.index_lt_of_body some'
  refine (agrees_job (Job.agrees_increment atomic number)).bind fun refs refs' listed => ?_
  refine (agrees_job (Job.agrees_edit (Program.agrees_insertInsts _ old old' paired listed))).seq fun _ => ?_
  refine (Agrees.modify fun r s alike => ?_).seq fun _ => .pure rfl
  exact { alike with instrumented := congrArg (· + 1) alike.instrumented }

theorem agrees_instrumentFunction (atomic : Bool) (paired : ρ.functions f g) : Agrees (Alike ρ)
    (instrumentFunction atomic f : Running σ Bool) (instrumentFunction atomic g : Running τ Bool) Eq := by
  unfold instrumentFunction
  refine .bind_get fun r s alike => ?_
  refine .foldlM (alike.program.function paired).blocks rfl fun b c block changed changed' same => ?_
  exact (agrees_instrumentBlock atomic block).seq fun counted => .pure (congrArg (counted || ·) same)

theorem agrees_anyChange (atomic : Bool) {tour tour' : Tour} (tours : Program.ToursAlike ρ tour tour') :
    Agrees (Alike ρ) (tour.anyChange (instrumentFunction atomic) : Running σ Bool)
      (tour'.anyChange (instrumentFunction atomic) : Running τ Bool) Eq := by
  refine tours.foldM_agrees rfl fun f g paired changed changed' same => ?_
  exact (agrees_instrumentFunction atomic paired).seq fun counted => .pure (congrArg (· || counted) same)

/-! ### Whole runs -/

structure Untouched (ρ : Pairing) (p q : Program) (r : Run σ) (s : Run τ) : Prop where
  alike : r.Alike ρ s
  left : r.program = p
  right : s.program = q

/-- Quiet hooks change nothing but their hosts. -/
theorem Untouched.told {hooks : Hooks σ} {hooks' : Hooks τ} (quiet : hooks.Quiet) (quiet' : hooks'.Quiet) {r : Run σ}
    {s : Run τ} (h : Untouched ρ p q r s) (count : Nat) :
    let r' := hooks.onCount count r
    let s' := hooks'.onCount count s
    Untouched ρ p q (hooks.onLabels r'.labels r') (hooks'.onLabels s'.labels s') := by
  obtain ⟨host, first⟩ := quiet.onCount count r
  obtain ⟨host', first'⟩ := quiet'.onCount count s
  dsimp only
  rw [first, first']
  obtain ⟨host, second⟩ := quiet.onLabels r.labels { r with host }
  obtain ⟨host', second'⟩ := quiet'.onLabels s.labels { s with host := host' }
  rw [second, second']
  exact ⟨⟨h.alike.job, h.alike.labels, h.alike.instrumented⟩, h.left, h.right⟩

/-- Runs on programs that look alike have the same outcome if their tours are alike. -/
theorem agrees_run (settings : Settings) {hooks : Hooks σ} {hooks' : Hooks τ} (quiet : hooks.Quiet)
    (quiet' : hooks'.Quiet) {r : Run σ} {s : Run τ} (alike : r.program.Alike ρ s.program)
    (tours : Corresponds (Program.ToursAlike ρ) r.program.entryTour s.program.entryTour) :
    SameOutcome (Alike ρ) Eq (run settings hooks r) (run settings hooks' s) := by
  have prepared : Untouched ρ r.program s.program (prepare settings r) (prepare settings s) :=
    ⟨⟨⟨⟨alike, .none, rfl, fun _ => rfl, rfl⟩, rfl, rfl, rfl⟩, rfl, rfl⟩, rfl, rfl⟩
  have numbered : Corresponds Eq r.program.blockLabels s.program.blockLabels := by
    rw [Program.blockLabels_alike alike tours]
    exact .refl _
  unfold run
  refine .bind_modify (.bind_get ?_)
  refine SameOutcome.bind (Agrees.check numbered _ _ prepared) fun labels labels' r₁ s₁ same untouched => ?_
  subst same
  have labeled : Untouched ρ r.program s.program { r₁ with labels } { s₁ with labels } :=
    ⟨⟨untouched.alike.job, rfl, untouched.alike.instrumented⟩, untouched.left, untouched.right⟩
  have told := labeled.told quiet quiet' labels.size
  refine .bind_modify (.bind_modify (.bind_modify (.bind_get ?_)))
  -- The hooks have changed nothing, so both tour the programs that they began with.
  have again := tours
  rw [← told.left, ← told.right] at again
  refine SameOutcome.bind (Agrees.check again _ _ told) fun tour tour' r₂ s₂ tours untouched => ?_
  refine SameOutcome.bind (agrees_anyChange settings.atomic tours _ _ untouched.alike) ?_
  rintro changed _ r₃ s₃ rfl alike
  exact .ok rfl ⟨⟨⟨alike.program, .none, rfl, fun _ => rfl, rfl⟩, alike.job.buffer⟩, alike.labels, alike.instrumented⟩

/-! ### The reachable part -/

/-- Runs that ended alike: with the same numbering, the same module outside of functions, and the same functions
written for those that were reached. -/
structure EndsAlike (p q : Program) (r : Run σ) (s : Run τ) : Prop where
  labels : s.labels = r.labels
  instrumented : s.instrumented = r.instrumented
  globals : r.program.SameGlobals s.program
  contents : ∀ f g, p.Reachable f → q.Reachable g → q.functionId g = p.functionId f →
    s.program.contents g = r.program.contents f

/-- Two runs on modules with the same reachable part fail with the same error, or end with the same status and alike. -/
theorem endsAlike_of_sameReach (settings : Settings) {hooks : Hooks σ} {hooks' : Hooks τ} (quiet : hooks.Quiet)
    (quiet' : hooks'.Quiet) {r : Run σ} {s : Run τ} (tidy : r.program.Tidy) (tidy' : s.program.Tidy)
    (globals : r.program.SameGlobals s.program) (reach : r.program.SameReach s.program) :
    SameOutcome (EndsAlike r.program s.program) Eq (run settings hooks r) (run settings hooks' s) := by
  have alike := Program.alike_twins tidy tidy' globals reach
  have tours := Program.twins_tours tidy tidy' globals reach
  refine (agrees_run settings quiet quiet' alike tours).mono (fun _ _ => id) fun r' s' ended => ?_
  refine ⟨ended.labels, ended.instrumented, ended.program.sameGlobals, fun f g reached reached' id => ?_⟩
  exact ended.program.contents ⟨reached, reached', id⟩

/-- The sample with its functions the other way round, and in front of them one that nothing calls. It has a block
without a label, and calls a function that there is none of. -/
def crowded : Run Unit where
  job := { workspace := { program := { sample 9 with
    instructions := ⟨(sample 9).instructions.items ++ #[
      { instruction :=
          { opcode := .function, typeId := 1, resultId := 8, operands := [.literal (.int 0), .ofId (.int 2)] } },
      { instruction := { opcode := .label } },
      { instruction := { opcode := .functionCall, operands := [.ofId (.int 99)] } },
      { instruction := { opcode := .functionEnd } }]⟩
    blocks := ⟨(sample 9).blocks.items ++ #[{ label := ⟨13⟩, function := some ⟨2⟩, body := [⟨14⟩] }]⟩
    functions := ⟨(sample 9).functions.items ++ #[{ definition := ⟨12⟩, blocks := [⟨2⟩], endMark := ⟨15⟩ }]⟩
    module := { (sample 9).module with functions := [⟨2⟩, ⟨1⟩, ⟨0⟩] } } } }
  host := ()

/-- A module that is not even valid is counted like the sample, since the rest of it is out of reach. -/
theorem endsAlike_of_sameReach_crowded : ∃ r' s', run {} {} (sampleRun 9) = .ok .changed r' ∧
    run {} {} crowded = .ok .changed s' ∧ EndsAlike (sample 9) crowded.program r' s' ∧
      crowded.program.validate ≠ .ok () := by
  have globals : (sample 9).SameGlobals crowded.program := by
    refine ⟨rfl, rfl, fun place => ?_⟩
    rcases place with _ | place
    · decide
    · cases place <;> decide
  have toured : (sample 9).entryTour = .ok ⟨[⟨0⟩, ⟨1⟩], none⟩ := rfl
  have toured' : crowded.program.entryTour = .ok ⟨[⟨0⟩, ⟨1⟩], none⟩ := rfl
  have reach := Program.sameReach_of_tours toured toured' rfl rfl (by decide)
  have tidy : (sample 9).Tidy := ⟨by decide, by decide, by decide, by decide⟩
  have tidy' : crowded.program.Tidy := ⟨by decide, by decide, by decide, by decide⟩
  have outcome := endsAlike_of_sameReach {} Hooks.quiet_default Hooks.quiet_default (r := sampleRun 9) (s := crowded)
    tidy tidy' globals reach
  have first := eq_ok_of_answer (by decide +kernel : answer? (run {} {} (sampleRun 9)) = some .changed)
  have second := eq_ok_of_answer (by decide +kernel : answer? (run {} {} crowded) = some .changed)
  rw [first, second] at outcome
  cases outcome with
  | ok _ ends => exact ⟨_, _, first, second, ends, by decide +kernel⟩

end Run

end BlockTally
