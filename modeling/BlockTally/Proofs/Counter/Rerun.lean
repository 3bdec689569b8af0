import BlockTally.Proofs.Counter.Outcome
import BlockTally.Proofs.Counter.Renumbering
import BlockTally.Proofs.Counter.RepeatedIncrements

/-! Runs on a module that a run has left.

A run leaves a module that is in stock of all that its increments refer to. A second run numbers the blocks in the same
way and counts them once more, and it declares a buffer variable of its own and nothing else.
-/

set_option autoImplicit false

namespace BlockTally

open Workspace (Request)

/-! ### What is put into a block -/

namespace Program

variable {p q : Program} {b : BlockRef} {gap : Nat} {refs : List InstRef} {place : Section} {opcode : Opcode}
  {v : Value}

theorem mentions_inserted : (p.inserted b gap refs).Mentions place opcode v ↔ p.Mentions place opcode v := by
  simp only [Mentions, module_inserted, holds_inserted, inst_inserted]

theorem Supports.inserted {wide : Bool} (h : p.Supports wide) : (p.inserted b gap refs).Supports wide := by
  obtain ⟨extension, integers, atomics⟩ := h
  refine ⟨?_, fun needed => mentions_inserted.mpr (integers needed),
    fun needed => mentions_inserted.mpr (atomics needed)⟩
  rwa [HasStorageBuffers, mentions_inserted, module_inserted]

theorem Equips.inserted (h : p.Equips q) : p.Equips (q.inserted b gap refs) := by
  obtain ⟨buffer, name, first, second, gains, held, variable', new⟩ := h
  have unlisted : q.Gains (q.inserted b gap refs) [] [] [] := .of_same fun place => by rw [module_inserted]
  refine ⟨buffer, name, first, second, gains.trans unlisted, holds_inserted.mpr held, ?_, ?_⟩
  · rwa [inst_inserted]
  · rwa [inst_inserted]

end Program

namespace Job

variable {j : Job} {b : BlockRef} {gap : Nat} {refs : List InstRef}

theorem keeps_inserted (filed : j.workspace.Filed) (b : BlockRef) (gap : Nat) (refs : List InstRef) :
    Request.Keeps j.workspace.program (j.inserted b gap refs).workspace.program :=
  Request.keeps_of_readsAlike (.inserted filed.lists b gap refs)

theorem Kept.inserted (h : j.Kept) (filed : j.workspace.Filed) : (j.inserted b gap refs).Kept := by
  have keeps := keeps_inserted filed b gap refs
  refine ⟨fun declared => ?_, fun asked => (h.pointerTypeId asked).imp fun id => keeps _ id⟩
  obtain ⟨⟨id, answered, named⟩, variableType, supports⟩ := h.variableId declared
  exact ⟨⟨id, keeps _ id answered, Program.mentions_inserted.mpr named⟩, variableType.imp fun id => keeps _ id,
    supports.inserted⟩

end Job

structure Program.InStock (settings : Settings) (number : Nat) (p : Program) : Prop where
  stocked : ({ wide := settings.wide } : CounterBuffer).Stocked p
  meets : ∀ index < number, p.Meets (({ wide := settings.wide } : CounterBuffer).demands settings.atomic index)

namespace Run

open Change

variable {σ : Type} {settings : Settings} {p : Program} {labels : Labels} {tour : Tour} {done : List BlockRef}
  {r : Run σ} {b : BlockRef}

/-! ### Runs that take stock -/

/-- The account of a run on a program `p` that gets in stock of all that its increments refer to. If `p` was in stock
before, the first increment declares a variable, and no other declarations follow. -/
structure Stocking (settings : Settings) (p : Program) (labels : Labels) (done : List BlockRef) (r : Run σ) : Prop where
  progress : r.Progress False settings.atomic p labels done
  recalls : Workspace.Recalls { program := p } r.job.workspace
  kept : r.job.Kept
  wide : r.job.buffer.wide = settings.wide
  declared : r.job.buffer.variableId ≠ 0 ↔ done ≠ []
  meets : ∀ index < done.length,
    r.program.Meets (({ wide := settings.wide } : CounterBuffer).demands settings.atomic index)
  fresh : done = [] → r.program = p
  equips : done ≠ [] → ∀ number, done.length ≤ number → p.InStock settings number → p.Equips r.program

theorem Stocking.inStock (h : r.Stocking settings p labels done) (some : done ≠ []) :
    r.program.InStock settings done.length :=
  ⟨(h.kept.variableId (h.declared.mpr some)).congr h.wide.symm, h.meets⟩

/-- The next block is counted. -/
theorem Stocking.count (h : r.Stocking settings p labels done) (closed : p.Closed) (next : Next p labels done b) :
    After (instrumentBlock settings.atomic b) r
      (fun changed r' => changed = true ∧ r'.Stocking settings p labels (done ++ [b])) fun _ _ => True := by
  refine h.progress.after_counting closed next (After.mono ((Job.keeps_increment settings.atomic done.length
    h.progress.sane).and (Job.recalling_increment settings.atomic done.length h.kept h.recalls.settled)) ?_
    fun _ _ _ => True.intro)
  rintro refs j ⟨⟨move, o, made⟩, recalls, restocks⟩
  have filed := recalls.settled.filed
  have inserted := Job.keeps_inserted filed b (r.program.insertionPoint b) refs
  have keeps : Request.Keeps r.program (r.counted b j refs).program := fun request id answered =>
    inserted request id (recalls.keeps request id answered)
  have new : ∀ i ∈ refs, p.instructions.size ≤ i.index := fun i among =>
    Nat.le_trans h.progress.grows.size_le (made.new i among).1
  have demands : r.job.buffer.demands settings.atomic done.length =
      ({ wide := settings.wide } : CounterBuffer).demands settings.atomic done.length :=
    CounterBuffer.demands_congr h.wide ..
  have meets := restocks.meets.later inserted
  rw [demands] at meets
  refine ⟨rfl, h.progress.insert closed next move made, (h.recalls.trans recalls).inserted _ new,
    restocks.kept.inserted filed, restocks.wide.trans h.wide, iff_of_true restocks.declared (by simp),
    fun index below => ?_, fun none => by simp at none, fun _ number few stock => ?_⟩
  · rw [List.length_append, List.length_singleton, Nat.lt_succ_iff_lt_or_eq] at below
    rcases below with before | rfl
    · exact (h.meets index before).later keeps
    · exact meets
  · rw [List.length_append, List.length_singleton] at few
    have met := stock.meets done.length few
    rw [← demands] at met
    refine Program.Equips.inserted ?_
    -- The first increment declares the variable and equips the module; later ones find all that they ask for.
    by_cases some : done = []
    · have undeclared : r.job.buffer.variableId = 0 := not_not.mp fun declared => h.declared.mp declared some
      have equips := restocks.equips undeclared
      rw [show r.job.workspace.program = p from h.fresh some] at equips
      exact equips (stock.stocked.congr h.wide) met
    · have gains := restocks.gains (h.declared.mpr some) (met.later h.recalls.keeps)
      exact (h.equips some number (Nat.le_of_succ_le few) stock).later recalls.grows gains

/-- In a settled workspace a run takes stock from the start. -/
theorem Stocking.start {host : σ} (progress : ({ prepare settings r with labels, host } : Run σ).Progress False
      settings.atomic r.program labels []) (settled : Workspace.Settled { program := r.program }) :
    ({ prepare settings r with labels, host } : Run σ).Stocking settings r.program labels [] where
  progress := progress
  recalls := settled.recalls
  kept := ⟨fun declared => absurd rfl declared, fun asked => absurd rfl asked⟩
  wide := rfl
  declared := iff_of_false (fun declared => declared rfl) fun some => some rfl
  meets _ := nofun
  fresh _ := rfl
  equips some := absurd rfl some

theorem Stocking.forget (h : r.Stocking settings p labels done) :
    ({ r with job.workspace.facts := {} } : Run σ).Stocking settings p labels done where
  progress := h.progress.forget
  recalls := ⟨h.recalls.settled.forget, h.recalls.grows, h.recalls.keeps⟩
  kept := ⟨h.kept.variableId, h.kept.pointerTypeId⟩
  wide := h.wide
  declared := h.declared
  meets := h.meets
  fresh := h.fresh
  equips := h.equips

theorem after_tour_stocking (formed : p.WellFormed) (closed : p.Closed) (traces : p.Traces labels tour)
    (h : r.Stocking settings p labels []) :
    After (tour.anyChange (instrumentFunction settings.atomic)) r
      (fun changed r' => (changed = true ↔ p.tracedBlocks tour ≠ []) ∧
        r'.Stocking settings p labels (p.tracedBlocks tour)) fun _ _ => True := by
  let inv (done : List BlockRef) (changed : Bool) (r : Run σ) : Prop :=
    (changed = true ↔ done ≠ []) ∧ r.Stocking settings p labels done
  have begins : inv [] false r := ⟨by simp, h⟩
  refine After.mono (after_tour_told traces.whole (fun _ _ _ held => held.2.progress.grows.function) begins ?_)
    (fun _ _ held => held.1) fun _ _ => id
  intro done b rest changed r split held
  refine After.mono (held.2.count closed (next_of_traces formed traces split)) (fun here r' after => ?_) fun _ _ => id
  obtain ⟨rfl, stocking⟩ := after
  exact ⟨iff_of_true rfl (by simp), stocking⟩

/-- A run that ends has changed the module just if there are blocks to count, and has taken stock then. -/
theorem after_run_stocking (settings : Settings) {hooks : Hooks σ} (quiet : hooks.Quiet) (formed : r.program.WellFormed)
    (closed : r.program.Closed) (constants : r.program.ConstantsNumbered)
    (settled : 0 < r.program.module.idBound → Workspace.Settled { program := r.program }) :
    After (run settings hooks) r (fun status r' => ∃ tour, r.program.Traces r'.labels tour ∧
      (status = .changed ↔ r.program.tracedBlocks tour ≠ []) ∧
      (r.program.tracedBlocks tour ≠ [] → r'.Stocking settings r.program r'.labels (r.program.tracedBlocks tour)))
      fun _ _ => True := by
  refine after_stages settings quiet (fun _ _ => True.intro) fun labels tour host traces => ?_
  by_cases none : r.program.tracedBlocks tour = []
  · have idle : tour.visited = [] := by
      by_contra some
      obtain ⟨b, traced⟩ := traced_of_visited formed traces some
      exact List.ne_nil_of_mem (traces.mem_iff.mpr traced) none
    unfold Tour.anyChange Tour.foldM
    rw [idle, traces.whole]
    exact After.pure ⟨tour, traces, by simp [none], fun some => absurd none some⟩
  -- A module may be settled only with a positive bound, and it has one if there is a block to count.
  · obtain ⟨b, among⟩ := List.exists_mem_of_ne_nil _ none
    have positive := (ready_of_traced formed constants traces (traces.mem_iff.mp among)).2
    let start : Run σ := { prepare settings r with labels, host }
    have progress : start.Progress r.program.Ready settings.atomic r.program start.labels [] :=
      Progress.start settings r formed closed rfl rfl rfl
    have stocking := Stocking.start (progress.mono False.elim) (settled positive)
    refine After.mono (after_tour_stocking formed closed traces stocking) ?_ fun _ _ _ => True.intro
    rintro changed r₁ ⟨told, stocking⟩
    have labeled : r₁.labels = labels := stocking.progress.labeled
    have flag : (if changed then Status.changed else .unchanged) = .changed ↔ changed = true := by
      cases changed <;> decide
    rw [← labeled] at traces
    rw [← stocking.progress.labeled] at stocking
    exact ⟨tour, traces, flag.trans told, fun _ => stocking.forget⟩

/-! ### Two runs -/

end Run

namespace Program

theorem settled_of_wellFormed {p : Program} (formed : p.WellFormed) (closed : p.Closed) (types : p.TypesNumbered)
    (constants : p.ConstantsNumbered) (targets : p.AnnotatesBelow) (apart : p.NotesApart)
    (positive : 0 < p.module.idBound) : Workspace.Settled { program := p } where
  interned := ⟨bounded_of_wellFormed formed closed types targets, Workspace.current_forgotten p⟩
  filed := ⟨closed.filed, nofun⟩
  apart late r entry read := by
    have linked := formed.linked closed positive
    rcases read with ⟨listed, declares | constant⟩ | ⟨listed, annotates⟩
    · exact linked.not_entryPoint listed (types r (List.mem_filter.mpr ⟨listed, declares⟩)) entry
    · exact linked.not_entryPoint listed (constants r listed constant) entry
    · exact apart late r listed annotates entry
  positive := positive

end Program

namespace Run

open Change

variable {σ : Type} {settings : Settings} {hooks hooks' : Hooks σ} {status : Status} {r r' r'' : Run σ}

/-- A second run numbers the blocks like the first one, counts the same blocks and declares a buffer variable with a
name and two annotations. Nothing else is declared, and what was declared is left as it is. -/
structure Repeats (p : Program) (r' r'' : Run σ) : Prop where
  labels : r''.labels = r'.labels
  instrumented : r''.instrumented = r'.instrumented
  counted : ∀ b, r''.program.block b ≠ r'.program.block b ↔ r'.program.block b ≠ p.block b
  equips : r'.program.Equips r''.program
  insts : ∀ i, r'.program.Holds i → i ∉ r'.program.module.entryPoints → r''.program.inst i = r'.program.inst i

/-- If a run has changed a module, a second one changes it in the same way, and declares a variable only. -/
theorem repeats_of_runs (quiet : hooks.Quiet) (quiet' : hooks'.Quiet) (valid : r.program.validate = .ok ())
    (closed : r.program.Closed) (types : r.program.TypesNumbered) (constants : r.program.ConstantsNumbered)
    (targets : r.program.AnnotatesBelow) (apart : r.program.NotesApart)
    (first : run settings hooks r = .ok .changed r') (second : run settings hooks' r' = .ok status r'') :
    status = .changed ∧ Repeats r.program r' r'' := by
  have formed := Program.validate_ok_iff.mp valid
  have settled := Program.settled_of_wellFormed formed closed types constants targets apart
  obtain ⟨tour, traces, changed, stocking⟩ :=
    (after_run_stocking settings quiet formed closed constants settled).of_ok first
  have some := changed.mp rfl
  have stocking := stocking some
  obtain ⟨formed', closed', constants'⟩ := startable_of_run quiet ⟨formed, closed, constants⟩ first
  obtain ⟨tour', traces', changed', stocking'⟩ :=
    (after_run_stocking settings quiet' formed' closed' constants'
      fun _ => stocking.recalls.settled.forget).of_ok second
  obtain ⟨labels, rfl⟩ := ((stocking.progress.keepsCalls closed).traces closed traces).unique traces'
  have blocks : r'.program.tracedBlocks tour' = r.program.tracedBlocks tour' :=
    List.flatMap_congr fun f _ => congrArg Function.blocks (stocking.progress.grows.function f)
  rw [blocks] at changed' stocking'
  have stocking' := stocking' some
  refine ⟨changed'.mpr some, labels, ?_, fun b => ?_, ?_, fun i held plain => ?_⟩
  · rw [stocking'.progress.instrumented, stocking.progress.instrumented]
  · rw [stocking'.progress.block_ne_iff, stocking.progress.block_ne_iff]
  · exact stocking'.equips some _ (Nat.le_refl _) (stocking.inStock some)
  · exact stocking'.progress.grows.inst held plain

/-- The sample is counted twice. -/
theorem repeats_of_runs_sample : ∃ r' r'', run { wide := true } {} (sampleRun 8) = .ok .changed r' ∧
    run { wide := true } {} r' = .ok .changed r'' ∧ Repeats (sample 8) r' r'' ∧
      r''.program.module.idBound = r'.program.module.idBound + 5 := by
  have first := eq_ok_of_answer (by decide +kernel : answer? (run { wide := true } {} (sampleRun 8)) = some .changed)
  have second := eq_ok_of_answer (by decide +kernel :
    answer? (run { wide := true } {} (finalState (run { wide := true } {} (sampleRun 8)))) = some .changed)
  have repeats := repeats_of_runs Hooks.quiet_default Hooks.quiet_default (by decide +kernel) (by decide) (by decide)
    (by decide) (by nofun) (by decide) first second
  exact ⟨_, _, first, second, repeats.2, by decide +kernel⟩

/-- The sample with an annotation of the id that a run takes for its first type. -/
def foresighted : Run Unit where
  job := { workspace := { program :=
    let note : Instruction := { opcode := .decorate, operands := [.literal (.int 8), ⟨.decoration, .int 2⟩] }
    ((sample 8).made note).appended .annotations ⟨12⟩ } }
  host := ()

/-- Validity alone is not enough: a type that gets an id with an annotation is not found again. -/
theorem not_repeats_of_valid : ¬∀ (settings : Settings) (r r' r'' : Run Unit) (status : Status),
    r.program.validate = .ok () → r.program.Closed → r.program.TypesNumbered → r.program.ConstantsNumbered →
    run settings {} r = .ok .changed r' → run settings {} r' = .ok status r'' →
    status = .changed ∧ Repeats r.program r' r'' := by
  intro always
  have first := eq_ok_of_answer (by decide +kernel : answer? (run {} {} foresighted) = some .changed)
  have second := eq_ok_of_answer (by decide +kernel :
    answer? (run {} {} (finalState (run {} {} foresighted))) = some .changed)
  have repeats := (always {} foresighted _ _ _ (by decide +kernel) (by decide) (by decide) (by decide) first second).2
  obtain ⟨buffer, name, _, _, gains, -⟩ := repeats.equips
  have longer := congrArg List.length gains.typesValues
  rw [List.length_append, List.length_singleton] at longer
  exact absurd longer (by decide +kernel)

/-- A run on a module that has the types of a buffer. An annotation of the struct is listed as an entry point as well,
so its interface gets longer. -/
def shared : Run Unit where
  job := { workspace := { program := {
    instructions := ⟨#[
      { instruction := { opcode := .typeVoid, resultId := 1 } },
      { instruction := { opcode := .typeFunction, resultId := 3, operands := [.ofId (.int 1)] } },
      { instruction :=
          { opcode := .typeInt, resultId := 4, operands := [.literal (.int 32), .literal (.int 0)] } },
      { instruction := { opcode := .typeRuntimeArray, resultId := 5, operands := [.ofId (.int 4)] } },
      { instruction := { opcode := .typeStruct, resultId := 6, operands := [.ofId (.int 5)] } },
      { instruction := { opcode := .decorate, operands := [.ofId (.int 5), .literal (.int 6), .literal (.int 4)] } },
      { instruction :=
          { opcode := .memberDecorate
            operands := [.ofId (.int 6), .literal (.int 0), .literal (.int 35), .literal (.int 0)] } },
      { instruction := { opcode := .decorate, operands := [.ofId (.int 6), .ofId (.int 2)] } },
      { instruction :=
          { opcode := .function, typeId := 1, resultId := 2, operands := [.literal (.int 0), .ofId (.int 3)] } },
      { instruction := { opcode := .label, resultId := 7 } },
      { instruction := { opcode := .ret }, block := some ⟨0⟩ },
      { instruction := { opcode := .functionEnd } }]⟩
    blocks := ⟨#[{ label := ⟨9⟩, function := some ⟨0⟩, body := [⟨10⟩] }]⟩
    functions := ⟨#[{ definition := ⟨8⟩, blocks := [⟨0⟩], endMark := ⟨11⟩, added := true }]⟩
    module :=
      { version := Version.v1_4, idBound := 8, entryPoints := [⟨7⟩], annotations := [⟨5⟩, ⟨6⟩, ⟨7⟩]
        typesValues := [⟨0⟩, ⟨1⟩, ⟨2⟩, ⟨3⟩, ⟨4⟩], functions := [⟨0⟩] } } } }
  host := ()

/-- Nor is it enough that no annotation is of an id to come. -/
theorem not_repeats_of_annotatesBelow : ¬∀ (settings : Settings) (r r' r'' : Run Unit) (status : Status),
    r.program.validate = .ok () → r.program.Closed → r.program.TypesNumbered → r.program.ConstantsNumbered →
    r.program.AnnotatesBelow → run settings {} r = .ok .changed r' → run settings {} r' = .ok status r'' →
    status = .changed ∧ Repeats r.program r' r'' := by
  intro always
  have first := eq_ok_of_answer (by decide +kernel : answer? (run {} {} shared) = some .changed)
  have second := eq_ok_of_answer (by decide +kernel :
    answer? (run {} {} (finalState (run {} {} shared))) = some .changed)
  have repeats :=
    (always {} shared _ _ _ (by decide +kernel) (by decide) (by decide) (by decide) (by decide) first second).2
  obtain ⟨buffer, name, _, _, gains, -⟩ := repeats.equips
  have longer := congrArg List.length gains.typesValues
  rw [List.length_append, List.length_singleton] at longer
  exact absurd longer (by decide +kernel)

end Run

end BlockTally
