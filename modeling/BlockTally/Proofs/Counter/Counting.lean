import BlockTally.Proofs.Counter.Machine
import BlockTally.Proofs.Counter.Outcome

/-! Counting.

When the increments that a run put into the blocks are executed, each counter ends up at the number of visits of
its block, modulo the width of the counters.
-/

set_option autoImplicit false

namespace BlockTally

open Change

namespace Program

/-- What the second program has in a block and the first one has nowhere. -/
def added (p q : Program) (b : BlockRef) : List InstRef :=
  (q.body b).filter fun i => ¬p.Holds i

variable {p q : Program} {atomic : Bool} {b : BlockRef} {refs : List InstRef} {o : Increment.Operands}

theorem Counted.added (h : p.Counted q atomic b refs o) (held : ∀ i ∈ p.body b, p.Holds i) :
    p.added q b = refs := by
  have body : q.body b = (p.instrumented b refs).body := congrArg Block.body h.block
  -- The old parts of the body fall out, and the increment stays.
  have old {part : List InstRef} (among : ∀ i ∈ part, i ∈ p.body b) : part.filter (fun i => ¬p.Holds i) = [] := by
    apply List.filter_eq_nil_iff.mpr
    intro i member
    simpa using held i (among i member)
  have new : refs.filter (fun i => ¬p.Holds i) = refs := by
    apply List.filter_eq_self.mpr
    intro i member
    simpa [Holds] using (h.new i member).1
  unfold Program.added
  rw [body]
  unfold instrumented
  simp only [List.filter_append]
  rw [new, old fun i member => List.mem_of_mem_take member, old fun i member => List.mem_of_mem_drop member]
  simp

end Program

namespace Machine

variable {w : Nat} {p : Program} {buffer : Id} {insts : BlockRef → List Instruction} {traced : BlockRef → Prop}
  {number : BlockRef → Nat} {size : Nat}

/-- Visits add up, if each of them adds one to a counter of its own block. -/
theorem visits_eq_some (each : ∀ b, traced b → ∀ counters : List (BitVec w), counters.length = size →
      visit p buffer (insts b) counters = some (counters.modify (number b) (· + 1)))
    (apart : ∀ b c, traced b → traced c → number b = number c → b = c) (blocks : List BlockRef)
    (all : ∀ b ∈ blocks, traced b) (counters : List (BitVec w)) (length : counters.length = size) :
    ∃ last, visits p buffer insts blocks counters = some last ∧ ∀ b, traced b →
      last[number b]? = counters[number b]?.map (· + BitVec.ofNat w (blocks.count b)) := by
  induction blocks generalizing counters with
  | nil =>
    refine ⟨counters, rfl, fun b _ => ?_⟩
    simp
  | cons c rest ih =>
    rw [List.forall_mem_cons] at all
    obtain ⟨last, visited, counts⟩ := ih all.2 (counters.modify (number c) (· + 1)) (by rw [List.length_modify, length])
    refine ⟨last, ?_, fun b member => ?_⟩
    · unfold visits at *
      rw [List.foldlM_cons, each c all.1 counters length]
      exact visited
    · rw [counts b member, List.getElem?_modify]
      cases counters[number b]? with
      | none => rfl
      | some old =>
        simp only [Option.map_eq_map, Option.map_some]
        -- A visit of another block counts with another counter.
        by_cases same : c = b
        · subst same
          rw [if_pos rfl, List.count_cons_self, BitVec.ofNat_add, BitVec.add_assoc, BitVec.add_comm 1]
          rfl
        · have differ : number c ≠ number b := fun equal => same (apart c b all.1 member equal)
          rw [if_neg differ, List.count_cons_of_ne same]

end Machine

/-- The declarations that an increment refers to, as the machine looks them up. -/
theorem Job.Provides.grounded {j : Job} {number : Nat} {o : Increment.Operands} (h : j.Provides number o)
    (formed : j.workspace.program.WellFormed) (numbered : j.workspace.program.ConstantsNumbered) :
    Machine.Grounded j.workspace.program o number := by
  have constant {id : Id} {value : Int} (known : j.workspace.program.HasConstant id (.int value)) :
      j.workspace.program.constant? id = some value :=
    Program.constant_of_hasConstant formed.distinct (known.ne_zero numbered) known
  constructor
  case formed => exact formed
  case member => exact constant h.member
  case index => exact constant h.index
  case one => exact constant h.one
  case constant =>
    obtain ⟨i, declared, isConstant, own, -⟩ := h.one
    exact ⟨i, declared.lists, isConstant, own⟩

theorem Program.lists_added {p q : Program} {b : BlockRef} (listed : b ∈ q.listedBlocks) :
    ∀ i ∈ (p.added q b).map q.inst, q.Lists i := by
  intro i among
  obtain ⟨r, new, rfl⟩ := List.mem_map.mp among
  have body : r ∈ q.body b := (List.mem_filter.mp new).1
  exact ⟨r, Program.mem_allInsts.mpr (.inr ⟨b, listed, List.mem_cons_of_mem _ body⟩), rfl⟩

namespace Run

variable {σ : Type} {r r' : Run σ}

/-- The increment of a traced block can be executed, and it refers to the counter of the block. -/
structure Executable (settings : Settings) (p : Program) (r : Run σ) (b : BlockRef) (number : Nat)
    (o : Increment.Operands) : Prop where
  labeled : r.labels.get? (p.blockId b) = some number
  inside : number < r.labels.size
  counted : p.Counted r.program settings.atomic b (p.added r.program b) o
  provides : r.job.Provides number o
  grounded : Machine.Grounded r.program o number
  listed : ∀ i ∈ (p.added r.program b).map r.program.inst, r.program.Lists i

theorem executable_of_run {settings : Settings} {hooks : Hooks σ} {status : Status} (quiet : hooks.Quiet)
    (formed : r.program.WellFormed) (closed : r.program.Closed) (numbered : r.program.ConstantsNumbered)
    (ran : run settings hooks r = .ok status r') {b : BlockRef} (traced : r.program.Traced b) :
    ∃ number o, Executable settings r.program r' b number o := by
  obtain ⟨tour, traces, -, progress⟩ := (after_run settings quiet formed closed).of_ok ran
  have member := traces.mem_iff.mpr traced
  have ready := ready_of_traced formed numbered traces traced
  have numbered' := (progress.sound ready).workspace.numbered
  have formed' := progress.wellFormed formed closed ready
  obtain ⟨f, reached, among⟩ := traced
  have listed : b ∈ r.program.listedBlocks := Program.mem_listedBlocks.mpr ⟨f, reached.mem, among⟩
  have held : ∀ i ∈ r.program.body b, r.program.Holds i := fun i inside =>
    holds_of_listed closed listed (List.mem_cons_of_mem _ inside)
  obtain ⟨number, refs, o, labeled, counted, provides⟩ := progress.counted b member
  obtain ⟨number', labeled', found⟩ := traces.numbers.exists_number member
  obtain rfl : number = number' := Option.some.inj (labeled.symm.trans labeled')
  obtain rfl := counted.added held
  refine ⟨number, o, labeled, ?_, counted, provides ready, ?_, ?_⟩
  · rw [traces.numbers.size]
    exact (List.getElem?_eq_some_iff.mp found).1
  · exact (provides ready).grounded formed' numbered'
  · exact Program.lists_added (progress.grows.listedBlocks ▸ listed)

theorem Executable.visit {settings : Settings} {p : Program} {b : BlockRef} {number w : Nat}
    {o : Increment.Operands} (h : Executable settings p r b number o) (counters : List (BitVec w))
    (length : counters.length = r.labels.size) :
    Machine.visit r.program r.job.buffer.variableId ((p.added r.program b).map r.program.inst) counters =
      some (counters.modify number (· + 1)) := by
  rw [h.provides.buffer.2.1]
  exact Machine.visit_of_form h.counted.form h.grounded h.listed (length ▸ h.inside)

/-- After a run each traced block has one increment of the counter with its number, behind its variables and phi
instructions, and whatever the visits of traced blocks are, the counters count them. -/
theorem counters_of_visits {settings : Settings} {hooks : Hooks σ} {status : Status} (quiet : hooks.Quiet)
    (valid : r.program.validate = .ok ()) (closed : r.program.Closed) (numbered : r.program.ConstantsNumbered)
    (ran : run settings hooks r = .ok status r') :
    (∀ f, r.program.Reachable f → ∀ b ∈ (r.program.function f).blocks, ∃ number,
      r'.labels.get? (r.program.blockId b) = some number ∧
      (∃ vars phis rest, r.program.LeadIn (r.program.body b) vars phis rest ∧
        r'.program.body b = vars ++ phis ++ r.program.added r'.program b ++ rest) ∧
      ∃ o, Increment.Form o settings.atomic ((r.program.added r'.program b).map r'.program.inst) ∧
        r'.job.Provides number o) ∧
    ∀ (w : Nat) (visits : List BlockRef), (∀ b ∈ visits, r.program.Traced b) → ∃ counters : List (BitVec w),
      Machine.visits r'.program r'.job.buffer.variableId
        (fun b => (r.program.added r'.program b).map r'.program.inst) visits
        (List.replicate r'.labels.size 0) = some counters ∧
      ∀ b, r.program.Traced b → ∀ number, r'.labels.get? (r.program.blockId b) = some number →
        counters[number]? = some (BitVec.ofNat w (visits.count b)) := by
  have formed := Program.validate_ok_iff.mp valid
  obtain ⟨tour, traces, -, -⟩ := (after_run settings quiet formed closed).of_ok ran
  have executable {b : BlockRef} (traced : r.program.Traced b) :=
    executable_of_run quiet formed closed numbered ran traced
  constructor
  · intro f reached b member
    obtain ⟨number, o, h⟩ := executable ⟨f, reached, member⟩
    obtain ⟨vars, phis, front, leadIn⟩ := r.program.exists_leadIn b
    refine ⟨number, h.labeled, ⟨vars, phis, _, leadIn, ?_⟩, o, h.counted.form, h.provides⟩
    rw [front]
    exact congrArg Block.body h.counted.block
  · intro w visits all
    -- Only numbers of traced blocks matter, and these have one.
    let place (b : BlockRef) : Nat := (r'.labels.get? (r.program.blockId b)).getD 0
    have placed {b : BlockRef} {number : Nat} (labeled : r'.labels.get? (r.program.blockId b) = some number) :
        place b = number := by
      simp only [place, labeled, Option.getD_some]
    have each : ∀ b, r.program.Traced b → ∀ counters : List (BitVec w), counters.length = r'.labels.size →
        Machine.visit r'.program r'.job.buffer.variableId ((r.program.added r'.program b).map r'.program.inst)
          counters = some (counters.modify (place b) (· + 1)) := by
      intro b traced counters length
      obtain ⟨number, o, h⟩ := executable traced
      rw [placed h.labeled]
      exact h.visit counters length
    -- No two blocks share a counter.
    have apart : ∀ b c, r.program.Traced b → r.program.Traced c → place b = place c → b = c := by
      intro b c first second same
      obtain ⟨number, o, h⟩ := executable first
      obtain ⟨number', o', h'⟩ := executable second
      rw [placed h.labeled, placed h'.labeled] at same
      subst same
      exact traces.numbers.unique (traces.mem_iff.mpr first) (traces.mem_iff.mpr second)
        (h.labeled.trans h'.labeled.symm)
    obtain ⟨counters, visited, counts⟩ := Machine.visits_eq_some each apart visits all
      (List.replicate r'.labels.size 0) List.length_replicate
    refine ⟨counters, visited, fun b traced number labeled => ?_⟩
    obtain ⟨number', o, h⟩ := executable traced
    obtain rfl : number' = number := Option.some.inj (h.labeled.symm.trans labeled)
    have last := counts b traced
    rw [placed labeled, List.getElem?_replicate, if_pos h.inside] at last
    rw [last, Option.map_some]
    exact congrArg some (BitVec.zero_add _)

/-- Two visits of the first block and one of the second. -/
theorem counters_of_visits_sample : ∃ counters : List (BitVec 32),
    Machine.visits (finalState (run {} {} (sampleRun 8))).program
      (finalState (run {} {} (sampleRun 8))).job.buffer.variableId
      (fun b => ((sampleRun 8).program.added (finalState (run {} {} (sampleRun 8))).program b).map
        (finalState (run {} {} (sampleRun 8))).program.inst) [⟨0⟩, ⟨1⟩, ⟨0⟩]
      (List.replicate (finalState (run {} {} (sampleRun 8))).labels.size 0) = some counters ∧
    counters[0]? = some 2 ∧ counters[1]? = some 1 := by
  have valid : (sampleRun 8).program.validate = .ok () := by decide +kernel
  have ran := eq_ok_of_answer (by decide +kernel : answer? (run {} {} (sampleRun 8)) = some .changed)
  have entry : (⟨2⟩ : InstRef) ∈ (sampleRun 8).program.module.entryPoints := List.mem_singleton_self _
  have main : (sampleRun 8).program.Reachable ⟨0⟩ := .entry entry rfl ⟨[], [⟨1⟩], rfl, rfl, by decide⟩
  have call : (⟨5⟩ : InstRef) ∈ (sampleRun 8).program.functionBody ⟨0⟩ := List.mem_cons_self ..
  have called : (sampleRun 8).program.Reachable ⟨1⟩ := .call main call rfl rfl ⟨[⟨0⟩], [], rfl, rfl, by decide⟩
  have first : (sampleRun 8).program.Traced ⟨0⟩ := ⟨_, main, List.mem_singleton_self _⟩
  have second : (sampleRun 8).program.Traced ⟨1⟩ := ⟨_, called, List.mem_singleton_self _⟩
  have all : ∀ b ∈ [⟨0⟩, ⟨1⟩, ⟨0⟩], (sampleRun 8).program.Traced b := by
    simp only [List.forall_mem_cons]
    exact ⟨first, second, first, nofun⟩
  have counted := counters_of_visits Hooks.quiet_default valid (by decide) (by decide) ran
  obtain ⟨counters, visited, counts⟩ := counted.2 32 _ all
  exact ⟨counters, visited, counts _ first 0 (by decide +kernel), counts _ second 1 (by decide +kernel)⟩

end Run

end BlockTally
