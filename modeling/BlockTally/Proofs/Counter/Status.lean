import BlockTally.Proofs.Counter.Failure

/-! What a run reports.

A block has work if it holds an instruction behind the variables and the phi instructions that lead it. A run counts
the traced blocks that have work, and says that it changed something just if there is one. Otherwise the module is as
it was, although its blocks were numbered and the hooks were told.
-/

set_option autoImplicit false

namespace BlockTally

variable {σ : Type}

namespace Program

/-- An instruction follows the leading run of variables and the run of phi instructions after it. -/
def HasWork (p : Program) (b : BlockRef) : Prop :=
  ∃ vars phis work, p.body b = vars ++ (phis ++ work) ∧ work ≠ [] ∧
    (∀ i ∈ vars, (p.inst i).opcode = .var) ∧ (∀ i ∈ (phis ++ work).head?, (p.inst i).opcode ≠ .var) ∧
    (∀ i ∈ phis, (p.inst i).opcode = .phi) ∧ ∀ i ∈ work.head?, (p.inst i).opcode ≠ .phi

variable {p : Program} {b : BlockRef} {op : Opcode}

/-- A run of instructions that is not continued by what follows. -/
theorem leading_append {run rest : List InstRef} (all : ∀ i ∈ run, (p.inst i).opcode = op)
    (stop : ∀ i ∈ rest.head?, (p.inst i).opcode ≠ op) : p.leading op (run ++ rest) = run.length := by
  have ends : rest.takeWhile (fun i => (p.inst i).opcode = op) = [] := by
    cases rest with
    | nil => rfl
    | cons i rest => exact List.takeWhile_cons_of_neg (by simpa using stop i rfl)
  unfold leading
  rw [List.takeWhile_append_of_pos fun i member => by simpa using all i member, ends, List.append_nil]

theorem exists_leading (p : Program) (op : Opcode) (refs : List InstRef) : ∃ run rest, refs = run ++ rest ∧
    (∀ i ∈ run, (p.inst i).opcode = op) ∧ ∀ i ∈ rest.head?, (p.inst i).opcode ≠ op := by
  induction refs with
  | nil => exact ⟨[], [], rfl, nofun, nofun⟩
  | cons i refs ih =>
    by_cases here : (p.inst i).opcode = op
    · obtain ⟨run, rest, rfl, all, stop⟩ := ih
      exact ⟨i :: run, rest, rfl, List.forall_mem_cons.mpr ⟨here, all⟩, stop⟩
    · exact ⟨[], i :: refs, rfl, nofun, fun j first => Option.some.inj first ▸ here⟩

/-- A block has work just if its insertion point is not its end. -/
theorem hasWork_iff : p.HasWork b ↔ p.insertionPoint b ≠ (p.body b).length := by
  have point {vars phis work : List InstRef} (split : p.body b = vars ++ (phis ++ work))
      (isVar : ∀ i ∈ vars, (p.inst i).opcode = .var) (noVar : ∀ i ∈ (phis ++ work).head?, (p.inst i).opcode ≠ .var)
      (isPhi : ∀ i ∈ phis, (p.inst i).opcode = .phi) (noPhi : ∀ i ∈ work.head?, (p.inst i).opcode ≠ .phi) :
      p.insertionPoint b = vars.length + phis.length := by
    have first : p.variablesEnd b = vars.length := by
      unfold variablesEnd
      rw [split, leading_append isVar noVar]
    unfold insertionPoint
    rw [first, split, List.drop_left, leading_append isPhi noPhi]
  obtain ⟨vars, rest, split, isVar, noVar⟩ := p.exists_leading .var (p.body b)
  obtain ⟨phis, work, rfl, isPhi, noPhi⟩ := p.exists_leading .phi rest
  constructor
  · rintro ⟨vars, phis, work, split, some, isVar, noVar, isPhi, noPhi⟩
    have length := List.length_pos_iff.mpr some
    rw [point split isVar noVar isPhi noPhi, split, List.length_append, List.length_append]
    omega
  · intro behind
    refine ⟨vars, phis, work, split, ?_, isVar, noVar, isPhi, noPhi⟩
    rintro rfl
    rw [point split isVar noVar isPhi noPhi, split, List.append_nil, List.length_append] at behind
    exact behind rfl

instance (p : Program) (b : BlockRef) : Decidable (p.HasWork b) :=
  decidable_of_iff' _ hasWork_iff

end Program

namespace Run

open Change

variable {atomic changed : Bool} {p : Program} {done : List BlockRef} {b : BlockRef} {start r r' : Run σ}

/-- The report of a run on its way from the program `p`: it was changed if one of the blocks that are done has work,
and those blocks were counted. Without such a block it still is in the state in which it came to the first block. -/
structure Reports (p : Program) (start : Run σ) (done : List BlockRef) (changed : Bool) (r : Run σ) : Prop where
  labeled : r.labels = start.labels
  host : r.host = start.host
  grows : p.Grows r.program
  others : ∀ b, b ∉ done → r.program.block b = p.block b
  changed : changed = true ↔ ∃ b ∈ done, p.HasWork b
  instrumented : r.instrumented = (done.filter p.HasWork).length
  untouched : (∀ b ∈ done, ¬p.HasWork b) → r = start

theorem Reports.body (h : Reports p start done changed r) (fresh : b ∉ done) : r.program.body b = p.body b :=
  congrArg Block.body (h.others b fresh)

theorem Reports.insertionPoint (h : Reports p start done changed r) (closed : p.Closed) (listed : b ∈ p.listedBlocks)
    (fresh : b ∉ done) : r.program.insertionPoint b = p.insertionPoint b :=
  Program.insertionPoint_congr (h.body fresh) fun _ member =>
    h.grows.opcode (holds_of_listed closed listed (List.mem_cons_of_mem _ member))

/-- A block without work is passed by. -/
theorem Reports.pass (h : Reports p start done changed r) (idle : ¬p.HasWork b) :
    Reports p start (done ++ [b]) changed r where
  labeled := h.labeled
  host := h.host
  grows := h.grows
  others c absent := h.others c fun among => absent (List.mem_append_left _ among)
  changed := by
    rw [h.changed]
    simp only [List.mem_append, List.mem_singleton, or_and_right, exists_or, exists_eq_left, idle, or_false]
  instrumented := by
    rw [h.instrumented, List.filter_append, List.filter_cons_of_neg (by simpa using idle), List.filter_nil,
      List.append_nil]
  untouched none := h.untouched fun c among => none c (List.mem_append_left _ among)

/-- A block with work gets an increment. -/
theorem Reports.count {j : Job} {refs : List InstRef} (h : Reports p start done changed r)
    (extends' : r.program.Extends j.workspace.program) (new : ∀ i ∈ refs, r.program.instructions.size ≤ i.index)
    (work : p.HasWork b) : Reports p start (done ++ [b]) true (r.counted b j refs) where
  labeled := h.labeled
  host := h.host
  grows := (h.grows.trans extends'.toGrows).inserted b _ fun i among => Nat.le_trans h.grows.size_le (new i among)
  others c absent := by
    rw [List.mem_append, List.mem_singleton, not_or] at absent
    exact (Program.block_inserted_of_ne absent.2).trans ((extends'.block c).trans (h.others c absent.1))
  changed := iff_of_true rfl ⟨b, by simp, work⟩
  instrumented := by
    rw [Run.counted, h.instrumented, List.filter_append, List.filter_cons_of_pos (by simpa using work), List.filter_nil,
      List.length_append]
    rfl
  untouched none := absurd work (none b (by simp))

/-- A block that has a number is counted or passed by. -/
theorem after_instrumentBlock_reports {number : Nat} (h : Reports p start done changed r) (closed : p.Closed)
    (listed : b ∈ p.listedBlocks) (fresh : b ∉ done) (numbered : start.labels.get? (p.blockId b) = some number) :
    After (instrumentBlock atomic b) r (fun here => Reports p start (done ++ [b]) (here || changed))
      fun _ _ => True := by
  have label : r.program.blockId b = p.blockId b :=
    h.grows.blockId (congrArg Block.label (h.others b fresh)) (holds_of_listed closed listed (List.mem_cons_self ..))
  have found : r.labels.get? (r.program.blockId b) = some number := by
    rw [h.labeled, label]
    exact numbered
  have sane : r.job.Sane False := False.elim
  have point := h.insertionPoint closed listed fresh
  have body := h.body fresh
  refine after_counting found (fun ended => ?_) fun behind => After.mono (Job.keeps_increment atomic number sane) ?_
    fun _ _ _ => True.intro
  · rw [point, body] at ended
    exact h.pass fun work => Program.hasWork_iff.mp work ended
  · rintro refs j ⟨move, o, made⟩
    rw [point, body] at behind
    exact h.count move.workspace.program (fun i among => (made.new i among).1) (Program.hasWork_iff.mpr behind)

/-- The tour of the traced blocks, one after the other. -/
theorem after_tour_reports {tour : Tour} (atomic : Bool) (closed : p.Closed) (traces : p.Traces start.labels tour)
    (begins : Reports p start [] false start) : After (tour.anyChange (instrumentFunction atomic)) start
      (Reports p start (p.tracedBlocks tour)) fun _ _ => True := by
  refine After.mono (after_tour_told traces.whole (fun _ _ _ held => held.grows.function) begins ?_)
    (fun _ _ held => held.1) fun _ _ held => held
  intro done b rest changed r split held
  have nodup := traces.numbers.nodup
  rw [split, List.nodup_append] at nodup
  have fresh : b ∉ done := fun again => nodup.2.2 b again b (List.mem_cons_self ..) rfl
  have among : b ∈ p.tracedBlocks tour := split ▸ List.mem_append_right _ (List.mem_cons_self ..)
  obtain ⟨f, reached, member⟩ := traces.mem_iff.mp among
  obtain ⟨number, numbered, -⟩ := traces.numbers.exists_number among
  exact after_instrumentBlock_reports held closed (Program.mem_listedBlocks.mpr ⟨f, reached.mem, member⟩) fresh numbered

structure Reported (settings : Settings) (hooks : Hooks σ) (r : Run σ) (status : Status) (r' : Run σ) : Prop where
  numbered : r.program.NumbersTraced r'.labels
  told : r'.host = told hooks r'.labels { prepare settings r with labels := r'.labels }
  status : status = .changed ↔ ∃ b, r.program.Traced b ∧ r.program.HasWork b
  instrumented : ∃ blocks : List BlockRef, blocks.Nodup ∧
    (∀ b, b ∈ blocks ↔ r.program.Traced b ∧ r.program.HasWork b) ∧ r'.instrumented = blocks.length
  untouched : (∀ b, r.program.Traced b → ¬r.program.HasWork b) → r'.program = r.program

theorem Reports.reported {settings : Settings} {hooks : Hooks σ} {tour : Tour} (distinct : r.program.FunctionsDistinct)
    (traces : r.program.Traces start.labels tour) (same : start.program = r.program)
    (told : start.host = told hooks start.labels { prepare settings r with labels := start.labels })
    (h : Reports r.program start (r.program.tracedBlocks tour) changed r') :
    Reported settings hooks r (if changed then .changed else .unchanged) { r' with job.workspace.facts := {} } where
  numbered := h.labeled ▸ traces.numbersTraced distinct
  told := by
    dsimp only
    rw [h.host, h.labeled, told]
  status := by
    have flag : (if changed then Status.changed else .unchanged) = .changed ↔ changed = true := by
      cases changed <;> decide
    rw [flag, h.changed]
    simp only [traces.mem_iff]
  instrumented := by
    refine ⟨_, traces.numbers.nodup.filter _, fun b => ?_, h.instrumented⟩
    rw [List.mem_filter, traces.mem_iff, decide_eq_true_eq]
  untouched none := by
    rw [← same, ← h.untouched fun b member => none b (traces.mem_iff.mp member)]
    rfl

/-- The status of a run that ends, and the number of blocks that it counted, tell exactly which traced blocks have
work. A run without work has numbered the blocks and told the hooks, and changed nothing. -/
theorem reported_of_run {settings : Settings} {hooks : Hooks σ} {status : Status} (quiet : hooks.Quiet)
    (closed : r.program.Closed) (distinct : r.program.FunctionsDistinct)
    (ran : run settings hooks r = .ok status r') : Reported settings hooks r status r' := by
  have outcome : After (run settings hooks) r (Reported settings hooks r) fun _ _ => True := by
    refine after_stages_told settings quiet (fun _ _ => True.intro) fun labels tour traces => ?_
    let start : Run σ :=
      { prepare settings r with labels, host := told hooks labels { prepare settings r with labels } }
    have begins : Reports r.program start [] false start :=
      ⟨rfl, rfl, .refl _, fun _ _ => rfl, by simp, rfl, fun _ => rfl⟩
    have same : start.program = r.program := rfl
    have told : start.host = told hooks start.labels { prepare settings r with labels := start.labels } := rfl
    have toured := after_tour_reports settings.atomic closed traces begins
    exact toured.mono (fun changed r₁ held => held.reported distinct traces same told) fun _ _ _ => True.intro
  exact outcome.of_ok ran

/-- A run on a function with a block of variables and phi instructions and an empty one. -/
def idle : Run (List Nat) where
  job := { workspace := { program := {
    instructions := ⟨#[
      { instruction := { opcode := .entryPoint, operands := [.literal (.int 5), .ofId (.int 1)] } },
      { instruction := { opcode := .function, typeId := 9, resultId := 1 } },
      { instruction := { opcode := .label, resultId := 2 } },
      { instruction := { opcode := .var, typeId := 9, resultId := 3 } },
      { instruction := { opcode := .phi, typeId := 9, resultId := 4 } },
      { instruction := { opcode := .label, resultId := 5 } },
      { instruction := { opcode := .functionEnd } }]⟩
    blocks := ⟨#[{ label := ⟨2⟩, body := [⟨3⟩, ⟨4⟩] }, { label := ⟨5⟩ }]⟩
    functions := ⟨#[{ definition := ⟨1⟩, blocks := [⟨0⟩, ⟨1⟩], endMark := ⟨6⟩ }]⟩
    module := { idBound := 6, entryPoints := [⟨0⟩], functions := [⟨0⟩] } } } }
  host := []

/-- One of three blocks is empty in the first module, and no block has work in the second one. -/
theorem reported_of_run_idle :
    (∃ r', run {} {} circle = .ok .changed r' ∧ Reported {} {} circle .changed r' ∧ r'.instrumented = 2) ∧
    ∃ r', run {} noting idle = .ok .unchanged r' ∧ r'.program = idle.program ∧ r'.host = [2] := by
  constructor
  · have ran := eq_ok_of_answer (by decide +kernel : answer? (run {} {} circle) = some .changed)
    have reported := reported_of_run Hooks.quiet_default (show circle.program.Closed by decide +kernel)
      (show circle.program.FunctionsDistinct by decide) ran
    exact ⟨_, ran, reported, by decide +kernel⟩
  · have ran := eq_ok_of_answer (by decide +kernel : answer? (run {} noting idle) = some .unchanged)
    have reported := reported_of_run quiet_noting (show idle.program.Closed by decide +kernel)
      (show idle.program.FunctionsDistinct by decide) ran
    have none : ∀ b, idle.program.Traced b → ¬idle.program.HasWork b := fun b traced work =>
      nomatch reported.status.mpr ⟨b, traced, work⟩
    refine ⟨_, ran, reported.untouched none, reported.told.trans ?_⟩
    decide +kernel

end Run

end BlockTally
