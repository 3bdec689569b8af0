import BlockTally.Proofs.Counter.Run

/-! What runs leave.

A run keeps the module valid, also a run that fails for want of ids, and it only adds to the module. The hooks
are assumed to leave the run alone.
-/

set_option autoImplicit false

namespace BlockTally

open Change

variable {σ : Type}

namespace Run

/-- A module whose entry point calls a second function, with a bound for ids. -/
def sample (idBound : Int) : Program where
  instructions := ⟨#[
    { instruction := { opcode := .typeVoid, resultId := 1 } },
    { instruction := { opcode := .typeFunction, resultId := 2, operands := [.ofId (.int 1)] } },
    { instruction :=
        { opcode := .entryPoint, operands := [.literal (.int 5), .ofId (.int 3), .string (.str "main")] } },
    { instruction :=
        { opcode := .function, typeId := 1, resultId := 3, operands := [.literal (.int 0), .ofId (.int 2)] } },
    { instruction := { opcode := .label, resultId := 4 } },
    { instruction := { opcode := .functionCall, typeId := 1, resultId := 5, operands := [.ofId (.int 6)] }
      block := some ⟨0⟩ },
    { instruction := { opcode := .ret }, block := some ⟨0⟩ },
    { instruction := { opcode := .functionEnd } },
    { instruction :=
        { opcode := .function, typeId := 1, resultId := 6, operands := [.literal (.int 0), .ofId (.int 2)] } },
    { instruction := { opcode := .label, resultId := 7 } },
    { instruction := { opcode := .ret }, block := some ⟨1⟩ },
    { instruction := { opcode := .functionEnd } }]⟩
  blocks := ⟨#[
    { label := ⟨4⟩, function := some ⟨0⟩, body := [⟨5⟩, ⟨6⟩] },
    { label := ⟨9⟩, function := some ⟨1⟩, body := [⟨10⟩] }]⟩
  functions := ⟨#[
    { definition := ⟨3⟩, blocks := [⟨0⟩], endMark := ⟨7⟩, added := true },
    { definition := ⟨8⟩, blocks := [⟨1⟩], endMark := ⟨11⟩, added := true }]⟩
  module := { idBound, entryPoints := [⟨2⟩], typesValues := [⟨0⟩, ⟨1⟩], functions := [⟨0⟩, ⟨1⟩] }

def sampleRun (idBound : Int) : Run Unit where
  job := { workspace := { program := sample idBound } }
  host := ()

variable {atomic : Bool} {p : Program} {labels : Labels} {tour : Tour} {done : List BlockRef} {r r' : Run σ}

theorem ready_of_next {b : BlockRef} (formed : p.WellFormed) (numbered : p.ConstantsNumbered)
    (next : Next p labels done b) : p.Ready := by
  refine ⟨numbered, ?_⟩
  have label : (p.block b).label ∈ p.allInsts :=
    Program.mem_allInsts.mpr (.inr ⟨b, next.listed, List.mem_cons_self ..⟩)
  obtain ⟨positive, bounded⟩ := formed.bounded _ (Program.mem_resultIds.mpr ⟨_, label, rfl, next.labeled⟩)
  exact Int.lt_trans positive bounded

theorem ready_of_traced {b : BlockRef} (formed : p.WellFormed) (numbered : p.ConstantsNumbered)
    (traces : p.Traces labels tour) (traced : p.Traced b) : p.Ready := by
  obtain ⟨front, back, split⟩ := List.append_of_mem (traces.mem_iff.mpr traced)
  exact ready_of_next formed numbered (next_of_traces formed traces split)

theorem traced_of_visited (formed : p.WellFormed) (traces : p.Traces labels tour) (some : tour.visited ≠ []) :
    ∃ b, p.Traced b := by
  obtain ⟨f, rest, visited⟩ := List.exists_cons_of_ne_nil some
  have member : f ∈ tour.visited := visited ▸ List.mem_cons_self ..
  have reached := (Program.mem_visited_iff traces.toured traces.whole).mp member
  obtain ⟨b, more, blocks⟩ := List.exists_cons_of_ne_nil (formed.functions f reached.mem).1
  exact ⟨b, f, reached, blocks ▸ List.mem_cons_self ..⟩

theorem ready_of_visited (formed : p.WellFormed) (numbered : p.ConstantsNumbered) (traces : p.Traces labels tour)
    (some : tour.visited ≠ []) : p.Ready := by
  obtain ⟨b, traced⟩ := traced_of_visited formed traces some
  exact ready_of_traced formed numbered traces traced

theorem Progress.wellFormed (h : r.Progress p.Ready atomic p labels done) (formed : p.WellFormed)
    (closed : p.Closed) (ready : p.Ready) : r.program.WellFormed := by
  apply formed.of_grows closed h.grows (h.sound ready).workspace.linked
  intro b _
  by_cases member : b ∈ done
  · obtain ⟨_, _, _, -, counted, -⟩ := h.counted b member
    exact counted.keptOrInstrumented
  · exact .inl (h.others b member)

structure Startable (p : Program) : Prop where
  formed : p.WellFormed
  closed : p.Closed
  numbered : p.ConstantsNumbered

/-- Runs can be repeated. -/
theorem startable_of_run {settings : Settings} {hooks : Hooks σ} {status : Status} (quiet : hooks.Quiet)
    (start : Startable r.program) (ran : run settings hooks r = .ok status r') : Startable r'.program := by
  obtain ⟨formed, closed, numbered⟩ := start
  obtain ⟨tour, traces, untouched, progress⟩ := (after_run settings quiet formed closed).of_ok ran
  -- Without a block to count the bound may be anything, but then nothing has changed.
  by_cases none : tour.visited = []
  · rw [untouched none]
    exact ⟨formed, closed, numbered⟩
  · have ready := ready_of_visited formed numbered traces none
    have sound := progress.sound ready
    exact ⟨progress.wellFormed formed closed ready, sound.workspace.linked.closed, sound.workspace.numbered⟩

/-- One run after another, each with settings and hooks of its own. -/
inductive Runs : Run σ → Run σ → Prop where
  | none (r : Run σ) : Runs r r
  | more {r r' r'' : Run σ} {settings : Settings} {hooks : Hooks σ} {status : Status} : Runs r r' → hooks.Quiet →
      run settings hooks r' = .ok status r'' → Runs r r''

theorem Runs.startable (h : Runs r r') (start : Startable r.program) : Startable r'.program := by
  induction h with
  | none => exact start
  | more _ quiet ran ih => exact startable_of_run quiet ih ran

/-- Checks that pass do not show. -/
theorem runChecked_eq_run {settings : Settings} {hooks : Hooks σ} (quiet : hooks.Quiet)
    (start : Startable r.program) : runChecked settings hooks true r = run settings hooks r := by
  unfold runChecked
  simp only [if_true]
  rw [get_bind, check_bind (Program.validate_ok_iff.mpr start.formed)]
  cases outcome : run settings hooks r with
  | ok status r' =>
    have after := startable_of_run quiet start outcome
    rw [bind_of_ok outcome, get_bind, check_bind (Program.validate_ok_iff.mpr after.formed)]
    rfl
  | error e r' => rw [bind_of_error outcome]

/-- After any number of runs the module is valid, so the checks around one more run cannot fail. -/
theorem validate_of_runs (valid : r.program.validate = .ok ()) (closed : r.program.Closed)
    (numbered : r.program.ConstantsNumbered) (runs : Runs r r') :
    r'.program.validate = .ok () ∧ ∀ (settings : Settings) (hooks : Hooks σ), hooks.Quiet →
      runChecked settings hooks true r' = run settings hooks r' := by
  have start := runs.startable ⟨Program.validate_ok_iff.mp valid, closed, numbered⟩
  constructor
  · exact Program.validate_ok_iff.mpr start.formed
  · exact fun settings hooks quiet => runChecked_eq_run quiet start

theorem validate_of_runs_sample : (sampleRun 8).program.validate = .ok () ∧
    (finalState (run {} {} (sampleRun 8))).program.validate = .ok () := by
  have valid : (sampleRun 8).program.validate = .ok () := by decide +kernel
  have ran := eq_ok_of_answer (by decide +kernel : answer? (run {} {} (sampleRun 8)) = some .changed)
  have runs : Runs (sampleRun 8) _ := .more (.none _) Hooks.quiet_default ran
  exact ⟨valid, (validate_of_runs valid (by decide) (by decide) runs).1⟩

/-! ### Runs that fail for want of ids -/

def Finished (atomic : Bool) (p : Program) (r : Run σ) (b : BlockRef) : Prop :=
  ∃ (traceIndex : Nat) (refs : List InstRef) (o : Increment.Operands),
    r.labels.get? (p.blockId b) = some traceIndex ∧ p.Counted r.program atomic b refs o ∧
      r.job.Provides traceIndex o

theorem Finished.changed {b : BlockRef} (h : Finished atomic p r b) : r.program.block b ≠ p.block b := by
  obtain ⟨_, refs, _, -, counted, -⟩ := h
  exact counted.block_ne

theorem Progress.finished_iff (h : r.Progress p.Ready atomic p labels done) (ready : p.Ready) {b : BlockRef} :
    Finished atomic p r b ↔ b ∈ done := by
  constructor
  · exact fun finished => h.block_ne_iff.mp finished.changed
  · intro member
    obtain ⟨traceIndex, refs, o, number, counted, provides⟩ := h.counted b member
    rw [← h.labeled] at number
    exact ⟨traceIndex, refs, o, number, counted, provides ready⟩

/-- The blocks before a place in a list without repetitions are those with smaller positions. -/
theorem mem_front_iff {blocks front back : List BlockRef} {b : BlockRef} {place : Nat} (distinct : blocks.Nodup)
    (split : blocks = front ++ back) (found : blocks[place]? = some b) : b ∈ front ↔ place < front.length := by
  constructor
  · intro member
    obtain ⟨other, among⟩ := List.mem_iff_getElem?.mp member
    have inside : other < front.length := (List.getElem?_eq_some_iff.mp among).1
    have again : blocks[other]? = some b := by rw [split, List.getElem?_append_left inside, among]
    have length : other < blocks.length := (List.getElem?_eq_some_iff.mp again).1
    have same : other = place := (List.getElem?_inj length distinct).mp (again.trans found.symm)
    rwa [← same]
  · intro inside
    rw [split, List.getElem?_append_left inside] at found
    exact List.mem_of_getElem? found

/-- The block lists what it did, and what it lists is as it was. An instruction that is listed as an entry point as well
may have got more operands. -/
structure Unchanged (p q : Program) (b : BlockRef) : Prop where
  block : q.block b = p.block b
  insts : ∀ i ∈ p.blockInsts b, p.Holds i → i ∉ p.module.entryPoints →
    q.inst i = p.inst i ∧ q.blockOf? i = p.blockOf? i

/-- What a run leaves that found no more ids. The blocks with the first numbers have their increments, and the other
blocks are unchanged. -/
structure Halted (atomic : Bool) (p : Program) (r : Run σ) : Prop where
  valid : r.program.validate = .ok ()
  blocks : ∀ b, Unchanged p r.program b ∨ Finished atomic p r b
  numbered : ∀ b, p.Traced b → ∃ number, r.labels.get? (p.blockId b) = some number ∧
    (Finished atomic p r b ↔ number < r.instrumented)
  untraced : ∀ b, ¬p.Traced b → Unchanged p r.program b
  extended : ∀ i, p.Holds i → ∃ more, r.program.inst i = (p.inst i).extended more ∧
    (i ∉ p.module.entryPoints → more = [])
  bound : r.program.module.idBound = max p.module.idBound maxIdBound

theorem Progress.unchanged (h : r.Progress p.Ready atomic p labels done) {b : BlockRef} (fresh : b ∉ done) :
    Unchanged p r.program b where
  block := h.others b fresh
  insts _ _ held plain := ⟨h.grows.inst held plain, h.grows.blockOf held⟩

theorem halted_of_idsExhausted {settings : Settings} {hooks : Hooks σ} (quiet : hooks.Quiet)
    (valid : r.program.validate = .ok ()) (closed : r.program.Closed) (numbered : r.program.ConstantsNumbered)
    (failed : run settings hooks r = .error .idsExhausted r') : Halted settings.atomic r.program r' := by
  have formed := Program.validate_ok_iff.mp valid
  obtain ⟨tour, traces, done, b, rest, split, progress, exhausted⟩ :=
    (after_run settings quiet formed closed).of_error failed rfl
  have ready := ready_of_next formed numbered (next_of_traces formed traces split)
  constructor
  case valid => exact Program.validate_ok_iff.mpr (progress.wellFormed formed closed ready)
  case blocks =>
    intro c
    rw [progress.finished_iff ready]
    by_cases member : c ∈ done
    · exact .inr member
    · exact .inl (progress.unchanged member)
  case numbered =>
    intro c traced
    obtain ⟨number, named, found⟩ := traces.numbers.exists_number (traces.mem_iff.mpr traced)
    refine ⟨number, named, ?_⟩
    rw [progress.finished_iff ready, progress.instrumented]
    exact mem_front_iff traces.numbers.nodup split found
  case untraced =>
    intro c other
    apply progress.unchanged
    intro member
    apply other
    rw [← traces.mem_iff, split]
    exact List.mem_append_left _ member
  case extended =>
    intro i held
    obtain ⟨more, same⟩ := progress.grows.extended held
    by_cases entry : i ∈ r.program.module.entryPoints
    · exact ⟨more, same, absurd entry⟩
    · exact ⟨[], (progress.grows.inst held entry).trans (Instruction.extended_nil _).symm, fun _ => rfl⟩
  case bound =>
    have above := exhausted rfl
    have grown := progress.grows.module.bound_le
    have limit := progress.grows.module.le_bound
    unfold maxIdBound at *
    unfold Run.program at *
    omega

/-- The ids run out in the second of two blocks. -/
theorem halted_of_idsExhausted_sample :
    Halted true (sampleRun (maxIdBound - 11)).program (finalState (run {} {} (sampleRun (maxIdBound - 11)))) ∧
      (finalState (run {} {} (sampleRun (maxIdBound - 11)))).instrumented = 1 := by
  have valid : (sampleRun (maxIdBound - 11)).program.validate = .ok () := by decide +kernel
  have failed := eq_error_of_error
    (by decide +kernel : error? (run {} {} (sampleRun (maxIdBound - 11))) = some .idsExhausted)
  exact ⟨halted_of_idsExhausted Hooks.quiet_default valid (by decide) (by decide) failed, by decide +kernel⟩

/-- A module with a second block that lists the entry point as well. -/
def enteredTwice : Program :=
  let p := sample (maxIdBound - 11)
  { instructions := p.instructions.update 2 fun entry => { entry with block := some ⟨1⟩ }
    blocks := p.blocks.update 1 fun b => { b with body := ⟨2⟩ :: b.body }
    functions := p.functions
    module := { p.module with version := Version.v1_4 } }

/-- A block can have changed before its turn: the entry point that it lists has got an operand. -/
theorem not_same_of_idsExhausted : ¬∀ (settings : Settings) (r r' : Run Unit), r.program.validate = .ok () →
    r.program.Closed → r.program.ConstantsNumbered → run settings {} r = .error .idsExhausted r' →
    ∀ b, (r'.program.block b = r.program.block b ∧ ∀ i ∈ r.program.blockInsts b, r'.program.inst i = r.program.inst i) ∨
      Finished settings.atomic r.program r' b := by
  intro always
  let start : Run Unit := { job := { workspace := { program := enteredTwice } }, host := () }
  have failed := eq_error_of_error (by decide +kernel : error? (run {} {} start) = some .idsExhausted)
  rcases always {} start _ (by decide +kernel) (by decide +kernel) (by decide +kernel) failed ⟨1⟩ with same | finished
  · exact absurd (same.2 ⟨2⟩ (by decide +kernel)) (by decide +kernel)
  · exact finished.changed (by decide +kernel)

/-! ### What a run does not change -/

/-- The second program is the first one with additions: new instructions in one place of each traced block, at
the ends of open sections, and operands at the ends of entry points. -/
structure OnlyAdds (p q : Program) : Prop where
  traced : ∀ f, p.Reachable f → ∀ b ∈ (p.function f).blocks, ∃ front refs back, p.body b = front ++ back ∧
    q.body b = front ++ refs ++ back ∧ refs ≠ [] ∧ ∀ i ∈ refs, ¬p.Holds i
  untraced : ∀ f ∈ p.module.functions, ¬p.Reachable f → ∀ b ∈ (p.function f).blocks, q.block b = p.block b
  labels : ∀ b, (q.block b).label = (p.block b).label ∧ (q.block b).function = (p.block b).function
  functions : q.module.functions = p.module.functions ∧ q.functions = p.functions
  header : q.module.version = p.module.version ∧ q.module.generator = p.module.generator
  memoryModel : q.module.memoryModel = p.module.memoryModel
  closed : ∀ place : Section, place.isOpen = false → q.module.list place = p.module.list place
  longer : ∀ place, p.module.list place <+: q.module.list place
  globals : ∀ place, place ≠ .entryPoints → ∀ i ∈ p.module.list place, q.inst i = p.inst i
  model : ∀ i, p.module.memoryModel = some i → q.inst i = p.inst i
  insts : ∀ f ∈ p.module.functions, ∀ i ∈ p.functionInsts f, q.inst i = p.inst i
  entryPoints : ∀ i ∈ p.module.entryPoints, ∃ more, q.inst i = (p.inst i).extended more

/-- In a layout without repetitions the entry points are in no other section. -/
theorem not_entryPoint_of_list (distinct : p.allInsts.Nodup) {place : Section} (other : place ≠ .entryPoints)
    {i : InstRef} (member : i ∈ p.module.list place) : i ∉ p.module.entryPoints := by
  intro entry
  have globals := (List.nodup_append.mp distinct).1
  have once := List.nodup_iff_count.mp globals i
  have first := List.count_pos_iff.mpr entry
  have second := List.count_pos_iff.mpr member
  cases place <;> simp only [Module.globals, Module.list, List.count_append] at * <;>
    first | omega | exact other rfl

theorem not_entryPoint_of_memoryModel (distinct : p.allInsts.Nodup) {i : InstRef}
    (model : p.module.memoryModel = some i) : i ∉ p.module.entryPoints := by
  intro entry
  have globals := (List.nodup_append.mp distinct).1
  have once := List.nodup_iff_count.mp globals i
  have first := List.count_pos_iff.mpr entry
  simp only [Module.globals, model, Option.toList_some, List.count_append, List.count_singleton_self] at once
  omega

theorem not_entryPoint_of_functionInsts (distinct : p.allInsts.Nodup) {f : FuncRef} (listed : f ∈ p.module.functions)
    {i : InstRef} (member : i ∈ p.functionInsts f) : i ∉ p.module.entryPoints := by
  intro entry
  have outside : i ∈ p.module.globals := Program.mem_globals.mpr (.inr ⟨.entryPoints, entry⟩)
  have inside : i ∈ p.module.functions.flatMap p.functionInsts := List.mem_flatMap.mpr ⟨f, listed, member⟩
  exact (List.nodup_append.mp distinct).2.2 i outside i inside rfl

/-- A listed block belongs to one function. -/
theorem untraced_of_unreached (formed : p.WellFormed) {f : FuncRef} (listed : f ∈ p.module.functions)
    (unreached : ¬p.Reachable f) {b : BlockRef} (member : b ∈ (p.function f).blocks) : ¬p.Traced b := by
  rintro ⟨g, reached, among⟩
  have owner := ((formed.functions f listed).2 b member).owner
  have owner' := ((formed.functions g reached.mem).2 b among).owner
  obtain rfl : f = g := Option.some.inj (owner.symm.trans owner')
  exact unreached reached

/-- A run that ends has only added to the module. -/
theorem onlyAdds_of_run {settings : Settings} {hooks : Hooks σ} {status : Status} (quiet : hooks.Quiet)
    (valid : r.program.validate = .ok ()) (closed : r.program.Closed) (distinct : r.program.allInsts.Nodup)
    (ran : run settings hooks r = .ok status r') : OnlyAdds r.program r'.program := by
  have formed := Program.validate_ok_iff.mp valid
  obtain ⟨tour, traces, -, progress⟩ := (after_run settings quiet formed closed).of_ok ran
  have grows := progress.grows
  have block {b : BlockRef} (other : ¬r.program.Traced b) : r'.program.block b = r.program.block b :=
    progress.others b fun member => other (traces.mem_iff.mp member)
  have same {i : InstRef} (listed : i ∈ r.program.allInsts) (plain : i ∉ r.program.module.entryPoints) :
      r'.program.inst i = r.program.inst i := grows.inst (closed i listed) plain
  constructor
  · intro f reached b member
    obtain ⟨_, refs, _, -, counted, -⟩ := progress.counted b (traces.mem_iff.mpr ⟨f, reached, member⟩)
    refine ⟨_, refs, _, (List.take_append_drop (r.program.insertionPoint b) _).symm, ?_, ?_, ?_⟩
    · exact congrArg Block.body counted.block
    · rintro rfl
      exact counted.form.ne_nil rfl
    · exact fun i among => Nat.not_lt.mpr (counted.new i among).1
  · intro f listed unreached b member
    exact block (untraced_of_unreached formed listed unreached member)
  · intro b
    by_cases traced : r.program.Traced b
    · obtain ⟨_, refs, _, -, counted, -⟩ := progress.counted b (traces.mem_iff.mpr traced)
      rw [counted.block]
      exact ⟨rfl, rfl⟩
    · rw [block traced]
      exact ⟨rfl, rfl⟩
  · exact ⟨grows.module.functions, grows.functions⟩
  · exact ⟨grows.module.version, grows.module.generator⟩
  · exact grows.module.memoryModel
  · exact grows.module.closed
  · exact grows.module.longer
  · intro place other i member
    exact same (Program.mem_allInsts_of_list place member) (not_entryPoint_of_list distinct other member)
  · intro i model
    have listed : i ∈ r.program.allInsts := List.mem_append_left _ (Program.mem_globals.mpr (.inl model))
    exact same listed (not_entryPoint_of_memoryModel distinct model)
  · intro f listed i member
    have among : i ∈ r.program.allInsts := List.mem_append_right _ (List.mem_flatMap.mpr ⟨f, listed, member⟩)
    exact same among (not_entryPoint_of_functionInsts distinct listed member)
  · intro i member
    exact grows.extended (closed i (Program.mem_allInsts_of_list .entryPoints member))

theorem onlyAdds_of_run_sample : OnlyAdds (sampleRun 8).program (finalState (run {} {} (sampleRun 8))).program := by
  have valid : (sampleRun 8).program.validate = .ok () := by decide +kernel
  have ran := eq_ok_of_answer (by decide +kernel : answer? (run {} {} (sampleRun 8)) = some .changed)
  exact onlyAdds_of_run Hooks.quiet_default valid (by decide) (by decide) ran

end Run

end BlockTally
