import BlockTally.Counter.Run
import BlockTally.Proofs.Counter.Increment
import BlockTally.Proofs.Counter.Labels

/-! Runs, block by block.

A run is followed by an account of the blocks that are done: each of them has its increment, and no other
block has changed. A run that fails stops between two blocks.
-/

set_option autoImplicit false

namespace BlockTally

variable {σ : Type}

/-- The hooks leave the run alone, and change the state of the host at most. -/
structure Hooks.Quiet (hooks : Hooks σ) : Prop where
  onCount : ∀ count r, ∃ host, hooks.onCount count r = { r with host }
  onLabels : ∀ labels r, ∃ host, hooks.onLabels labels r = { r with host }

theorem Hooks.quiet_default : ({} : Hooks σ).Quiet :=
  ⟨fun _ r => ⟨r.host, rfl⟩, fun _ r => ⟨r.host, rfl⟩⟩

namespace Program

def Ready (p : Program) : Prop :=
  p.ConstantsNumbered ∧ 0 < p.module.idBound

/-- A valid module with an id bound is linked. -/
theorem WellFormed.linked {p : Program} (h : p.WellFormed) (closed : p.Closed) (positive : 0 < p.module.idBound) :
    p.Linked [] where
  distinct := by
    rw [List.append_nil]
    exact h.distinct
  bounded := by
    rw [List.append_nil]
    exact h.bounded
  defined := h.defined
  closed := closed
  positive := positive

structure Counted (p q : Program) (atomic : Bool) (b : BlockRef) (refs : List InstRef) (o : Increment.Operands) :
    Prop where
  block : q.block b = p.instrumented b refs
  new : ∀ r ∈ refs, p.instructions.size ≤ r.index ∧ q.Holds r
  placed : ∀ r ∈ refs, q.blockOf? r = some b
  form : Increment.Form o atomic (refs.map q.inst)

variable {p q : Program} {atomic : Bool} {b : BlockRef} {refs : List InstRef} {o : Increment.Operands}

theorem Counted.keptOrInstrumented (h : p.Counted q atomic b refs o) : p.KeptOrInstrumented q b := by
  refine .inr ⟨refs, h.block, h.placed, fun r member => ?_⟩
  exact h.form.movable (List.mem_map_of_mem member)

/-- A block with an increment is another one than before. -/
theorem Counted.block_ne (h : p.Counted q atomic b refs o) : q.block b ≠ p.block b := by
  intro same
  -- An increment is not empty, so the body has become longer.
  have lengths := congrArg (fun block : Block => block.body.length) (same.symm.trans h.block)
  have split := congrArg List.length (List.take_append_drop (p.insertionPoint b) (p.body b))
  have some : refs.map q.inst ≠ [] := h.form.ne_nil
  have none : refs.length = 0 := by
    simp only [Program.instrumented, List.length_append] at lengths split
    unfold Program.body at *
    omega
  rw [List.eq_nil_of_length_eq_zero none] at some
  exact some rfl

/-- New instructions are no entry points. -/
theorem Grows.plain_of_new (grows : p.Grows q) (closed : p.Closed) {i : InstRef} (new : p.instructions.size ≤ i.index) :
    i ∉ q.module.entryPoints := by
  intro entry
  rw [grows.module.entryPoints] at entry
  exact Nat.not_lt.mpr new (closed i (mem_allInsts_of_list .entryPoints entry))

theorem Counted.extend {q' : Program} (h : p.Counted q atomic b refs o) (closed : p.Closed) (grows : p.Grows q)
    (extends' : q.Extends q') : p.Counted q' atomic b refs o := by
  have same : refs.map q'.inst = refs.map q.inst := by
    apply List.map_congr_left
    intro r member
    exact extends'.inst (h.new r member).2 (grows.plain_of_new closed (h.new r member).1)
  constructor
  case block => exact (extends'.block b).trans h.block
  case new => exact fun r member => ⟨(h.new r member).1, extends'.holds (h.new r member).2⟩
  case placed => exact fun r member => (extends'.blockOf (h.new r member).2).trans (h.placed r member)
  case form =>
    rw [same]
    exact h.form

/-- An insertion of other instructions into another block. -/
theorem Counted.inserted {c : BlockRef} {more : List InstRef} (gap : Nat) (h : p.Counted q atomic b refs o)
    (other : b ≠ c) (apart : ∀ r ∈ refs, r ∉ more) : p.Counted (q.inserted c gap more) atomic b refs o := by
  have same : refs.map (q.inserted c gap more).inst = refs.map q.inst :=
    List.map_congr_left fun r _ => inst_inserted r
  constructor
  case block => exact (block_inserted_of_ne other).trans h.block
  case new =>
    intro r member
    unfold Holds
    rw [size_inserted]
    exact h.new r member
  case placed =>
    intro r member
    rw [blockOf_inserted_of_not_mem (apart r member)]
    exact h.placed r member
  case form =>
    rw [same]
    exact h.form

/-- An insertion into a block that has not changed so far. -/
theorem block_inserted_of_unchanged (old : b.index < q.blocks.size) (unchanged : q.block b = p.block b) :
    (q.inserted b (p.insertionPoint b) refs).block b = p.instrumented b refs := by
  rw [block_inserted old, body, unchanged]
  rfl

/-- An increment that is put into a block which has not changed so far. -/
theorem Counted.of_inserted (old : b.index < q.blocks.size) (unchanged : q.block b = p.block b)
    (new : ∀ r ∈ refs, p.instructions.size ≤ r.index ∧ q.Holds r) (form : Increment.Form o atomic (refs.map q.inst)) :
    p.Counted (q.inserted b (p.insertionPoint b) refs) atomic b refs o := by
  have same : refs.map (q.inserted b (p.insertionPoint b) refs).inst = refs.map q.inst :=
    List.map_congr_left fun r _ => inst_inserted r
  constructor
  case block => exact block_inserted_of_unchanged old unchanged
  case new =>
    intro r member
    unfold Holds
    rw [size_inserted]
    exact new r member
  case placed => exact fun r member => blockOf_inserted member (new r member).2
  case form =>
    rw [same]
    exact form

end Program

namespace Job

variable {good : Prop} {j : Job} {b : BlockRef} {gap : Nat} {refs : List InstRef}

def inserted (j : Job) (b : BlockRef) (gap : Nat) (refs : List InstRef) : Job :=
  { j with workspace := j.workspace.inserted b gap refs }

theorem Provides.inserted {traceIndex : Int} {o : Increment.Operands} (h : j.Provides traceIndex o) :
    (j.inserted b gap refs).Provides traceIndex o where
  buffer := ⟨h.buffer.1, h.buffer.2.1, Program.hasBuffer_inserted.mpr h.buffer.2.2⟩
  member := Program.hasConstant_inserted.mpr h.member
  index := Program.hasConstant_inserted.mpr h.index
  one := Program.hasConstant_inserted.mpr h.one

/-- An increment that was made is put into a block, and its ids are pending no longer. -/
theorem Sound.inserted {pending : List Id} (gap : Nat) (h : j.Sound (j.workspace.program.idsOf refs ++ pending))
    (old : b.index < j.workspace.program.blocks.size) (member : b ∈ j.workspace.program.listedBlocks)
    (labeled : j.workspace.program.blockId b ≠ 0) (held : ∀ r ∈ refs, j.workspace.program.Holds r)
    (uses : Increment.Closed j.workspace.program (refs.map j.workspace.program.inst)) :
    (j.inserted b gap refs).Sound pending := by
  have own : Increment.ownIds (refs.map j.workspace.program.inst) = j.workspace.program.idsOf refs :=
    List.flatMap_map ..
  have distinct := (List.nodup_append.mp h.workspace.linked.distinct).1
  constructor
  · apply h.workspace.inserted gap old member labeled held
    intro r among v used
    rw [← own]
    exact uses _ (List.mem_map_of_mem among) v used
  · intro declared
    exact Program.hasBuffer_inserted.mpr (h.variableId declared)
  · intro declared
    exact Program.defines_inserted old member labeled distinct (h.pointerTypeId declared)

end Job

namespace Run

open Change Account Contract

variable {good : Prop} {atomic : Bool} {p : Program} {labels : Labels} {done : List BlockRef} {r : Run σ}

/-- The account of a run that started from the program `p`: the blocks that are done are counted under their
numbers, and the others are as they were. -/
structure Progress (good : Prop) (atomic : Bool) (p : Program) (labels : Labels) (done : List BlockRef)
    (r : Run σ) : Prop where
  labeled : r.labels = labels
  instrumented : r.instrumented = done.length
  grows : p.Grows r.program
  sound : good → r.job.Sound []
  others : ∀ b, b ∉ done → r.program.block b = p.block b
  counted : ∀ b ∈ done, ∃ (traceIndex : Nat) (refs : List InstRef) (o : Increment.Operands),
    labels.get? (p.blockId b) = some traceIndex ∧ p.Counted r.program atomic b refs o ∧
      (good → r.job.Provides traceIndex o)

theorem Progress.sane (h : r.Progress good atomic p labels done) : r.job.Sane good :=
  fun assumed => ⟨[], h.sound assumed⟩

/-- Less may be assumed. -/
theorem Progress.mono {good' : Prop} (h : r.Progress good atomic p labels done) (weaker : good' → good) :
    r.Progress good' atomic p labels done where
  labeled := h.labeled
  instrumented := h.instrumented
  grows := h.grows
  sound assumed := h.sound (weaker assumed)
  others := h.others
  counted b member := by
    obtain ⟨traceIndex, refs, o, number, counted, provides⟩ := h.counted b member
    exact ⟨traceIndex, refs, o, number, counted, fun assumed => provides (weaker assumed)⟩

/-- The blocks that are done are those that have changed. -/
theorem Progress.block_ne_iff (h : r.Progress good atomic p labels done) {b : BlockRef} :
    r.program.block b ≠ p.block b ↔ b ∈ done := by
  constructor
  · intro changed
    by_contra absent
    exact changed (h.others b absent)
  · intro member
    obtain ⟨_, _, _, -, counted, -⟩ := h.counted b member
    exact counted.block_ne

/-- Declarations change no block. -/
theorem Progress.advance {j : Job} (h : r.Progress good atomic p labels done) (closed : p.Closed)
    (move : r.job.Advances good j) : ({ r with job := j } : Run σ).Progress good atomic p labels done where
  labeled := h.labeled
  instrumented := h.instrumented
  grows := h.grows.trans move.workspace.program.toGrows
  sound assumed := move.sound assumed [] (h.sound assumed)
  others b fresh := (move.workspace.program.block b).trans (h.others b fresh)
  counted b member := by
    obtain ⟨traceIndex, refs, o, number, counted, provides⟩ := h.counted b member
    have provides' := move.provides h.sane provides
    exact ⟨traceIndex, refs, o, number, counted.extend closed h.grows move.workspace.program, provides'⟩

/-! ### One block -/

structure Next (p : Program) (labels : Labels) (done : List BlockRef) (b : BlockRef) : Prop where
  listed : b ∈ p.listedBlocks
  formed : ∃ f, p.WellFormedBlock f b
  fresh : b ∉ done
  labeled : p.blockId b ≠ 0
  number : labels.get? (p.blockId b) = some done.length

variable {b : BlockRef} {j : Job} {refs : List InstRef} {o : Increment.Operands}

theorem holds_of_listed (closed : p.Closed) (listed : b ∈ p.listedBlocks) {i : InstRef} (member : i ∈ p.blockInsts b) :
    p.Holds i :=
  closed i (Program.mem_allInsts.mpr (.inr ⟨b, listed, member⟩))

theorem Progress.blockId (h : r.Progress good atomic p labels done) (closed : p.Closed) (next : Next p labels done b) :
    r.program.blockId b = p.blockId b := by
  apply h.grows.blockId
  · rw [h.others b next.fresh]
  · exact holds_of_listed closed next.listed (List.mem_cons_self ..)

theorem Progress.insertionPoint (h : r.Progress good atomic p labels done) (closed : p.Closed)
    (next : Next p labels done b) : r.program.insertionPoint b = p.insertionPoint b := by
  apply Program.insertionPoint_congr
  · exact congrArg Block.body (h.others b next.fresh)
  · exact fun i member => h.grows.opcode (holds_of_listed closed next.listed (List.mem_cons_of_mem _ member))

/-- What was counted before stays so when new instructions are put into the next block. -/
theorem Progress.counted_insert {c : BlockRef} (gap : Nat) (h : r.Progress good atomic p labels done)
    (closed : p.Closed) (move : r.job.Advances good j) (fresh : b ∉ done)
    (new : ∀ i ∈ refs, r.program.instructions.size ≤ i.index) (before : c ∈ done) :
    ∃ (traceIndex : Nat) (older : List InstRef) (o : Increment.Operands),
      labels.get? (p.blockId c) = some traceIndex ∧
      p.Counted (j.workspace.program.inserted b gap refs) atomic c older o ∧
      (good → (j.inserted b gap refs).Provides traceIndex o) := by
  have other : c ≠ b := by
    rintro rfl
    exact fresh before
  obtain ⟨traceIndex, older, o, number, counted, provides⟩ := h.counted c before
  -- The instructions of the earlier increment are older than the new ones.
  have apart : ∀ i ∈ older, i ∉ refs := by
    intro i among again
    exact absurd (counted.new i among).2 (Nat.not_lt.mpr (new i again))
  have extended := counted.extend closed h.grows move.workspace.program
  have kept := move.provides h.sane provides
  exact ⟨traceIndex, older, o, number, extended.inserted gap other apart, fun assumed => (kept assumed).inserted⟩

def counted (r : Run σ) (b : BlockRef) (j : Job) (refs : List InstRef) : Run σ :=
  { r with job := j.inserted b (r.program.insertionPoint b) refs, instrumented := r.instrumented + 1 }

/-- The increment that was made is put into the block. -/
theorem Progress.insert (h : r.Progress good atomic p labels done) (closed : p.Closed) (next : Next p labels done b)
    (move : r.job.Advances good j) (made : Job.Made good atomic done.length r.job j refs o) :
    (r.counted b j refs).Progress good atomic p labels (done ++ [b]) := by
  rw [Run.counted, h.insertionPoint closed next]
  have advanced := h.advance closed move
  have grows : p.Grows j.workspace.program := advanced.grows
  have unchanged : j.workspace.program.block b = p.block b := advanced.others b next.fresh
  have blockId : j.workspace.program.blockId b = p.blockId b := advanced.blockId closed next
  have new : ∀ i ∈ refs, p.instructions.size ≤ i.index ∧ j.workspace.program.Holds i := fun i member =>
    ⟨Nat.le_trans h.grows.size_le (made.new i member).1, (made.new i member).2⟩
  have old : b.index < j.workspace.program.blocks.size := by
    obtain ⟨f, formed⟩ := next.formed
    apply Program.index_lt_of_owner
    rw [unchanged]
    exact formed.owner
  constructor
  case labeled => exact h.labeled
  case instrumented =>
    rw [h.instrumented, List.length_append]
    rfl
  case grows => exact grows.inserted b _ fun i member => (new i member).1
  case sound =>
    intro assumed
    -- The ids of the increment are pending until its instructions are in the block.
    have pending := made.pending assumed [] (h.sound assumed)
    refine Job.Sound.inserted _ pending old ?_ ?_ (fun i member => (new i member).2) (made.uses assumed)
    · rw [grows.listedBlocks]
      exact next.listed
    · rw [blockId]
      exact next.labeled
  case others =>
    intro c absent
    rw [List.mem_append, List.mem_singleton, not_or] at absent
    exact (Program.block_inserted_of_ne absent.2).trans (advanced.others c absent.1)
  case counted =>
    intro c member
    rcases List.mem_append.mp member with before | here
    · exact h.counted_insert _ closed move next.fresh (fun i among => (made.new i among).1) before
    · obtain rfl := List.mem_singleton.mp here
      have counted := Program.Counted.of_inserted old unchanged new made.form
      exact ⟨done.length, refs, o, next.number, counted, fun assumed => (made.provides assumed).inserted⟩

/-- A block that has a number is passed by if nothing follows its insertion point. Otherwise an increment is made and
put there. -/
theorem after_counting {number : Nat} {good : Bool → Run σ → Prop} {bad : Error → Run σ → Prop}
    (numbered : r.labels.get? (r.program.blockId b) = some number)
    (passed : r.program.insertionPoint b = (r.program.body b).length → good false r)
    (made : r.program.insertionPoint b ≠ (r.program.body b).length →
      After (Job.increment atomic number) r.job (fun refs j => good true (r.counted b j refs))
        fun e j => bad e { r with job := j }) : After (instrumentBlock atomic b) r good bad := by
  unfold instrumentBlock
  apply After.bind_get
  dsimp only
  split
  next ended => exact After.pure (passed ended)
  next behind =>
    rw [numbered]
    apply After.bind
    refine After.within (After.mono (made behind) (fun refs j held => ?_) fun _ _ => id)
    refine After.bind (After.within (After.within (After.within (Program.after_insertInsts ?_))))
    exact After.bind (After.modify (After.pure held))

/-- The next block is not passed by. -/
theorem Progress.after_counting {good' : Bool → Run σ → Prop} {bad : Error → Run σ → Prop}
    (h : r.Progress good atomic p labels done) (closed : p.Closed) (next : Next p labels done b)
    (made : After (Job.increment atomic done.length) r.job (fun refs j => good' true (r.counted b j refs))
      fun e j => bad e { r with job := j }) : After (instrumentBlock atomic b) r good' bad := by
  obtain ⟨f, formed⟩ := next.formed
  have body : r.program.body b = p.body b := congrArg Block.body (h.others b next.fresh)
  have numbered : r.labels.get? (r.program.blockId b) = some done.length := by
    rw [h.labeled, h.blockId closed next]
    exact next.number
  refine Run.after_counting numbered (fun ended => ?_) fun _ => made
  rw [h.insertionPoint closed next, body] at ended
  exact absurd ended (Nat.ne_of_lt formed.insertionPoint_lt)

/-- Counting a block either finishes it or leaves it alone. -/
theorem after_instrumentBlock (h : r.Progress good atomic p labels done) (closed : p.Closed)
    (next : Next p labels done b) :
    After (instrumentBlock atomic b) r
      (fun changed r' => changed = true ∧ r'.Progress good atomic p labels (done ++ [b]))
      (fun e r' => r'.Progress good atomic p labels done ∧
        (e = .idsExhausted → maxIdBound ≤ r'.program.module.idBound)) := by
  refine h.after_counting closed next (After.mono (Job.keeps_increment atomic done.length h.sane) ?_ ?_)
  · rintro refs j ⟨move, o, made⟩
    exact ⟨rfl, h.insert closed next move made⟩
  -- Without a whole increment the block is not touched.
  · rintro e j ⟨move, exhausted⟩
    exact ⟨h.advance closed move, exhausted⟩

/-! ### All blocks -/

/-- The account of a run that failed: it stopped at one of the blocks, and all blocks before it are done. -/
def Stopped (good : Prop) (atomic : Bool) (p : Program) (labels : Labels) (blocks : List BlockRef) (e : Error)
    (r : Run σ) : Prop :=
  ∃ done b rest, blocks = done ++ b :: rest ∧ r.Progress good atomic p labels done ∧
    (e = .idsExhausted → maxIdBound ≤ r.program.module.idBound)

variable {tour : Tour}

theorem next_of_traces (formed : p.WellFormed) (traces : p.Traces labels tour) {rest : List BlockRef}
    (split : p.tracedBlocks tour = done ++ b :: rest) : Next p labels done b := by
  have among : b ∈ p.tracedBlocks tour := split ▸ List.mem_append_right _ (List.mem_cons_self ..)
  obtain ⟨f, reached, member⟩ := traces.mem_iff.mp among
  have distinct := traces.numbers.nodup
  rw [split, List.nodup_append] at distinct
  have place : (p.tracedBlocks tour)[done.length]? = some b := by
    rw [split, List.getElem?_append_right (Nat.le_refl _), Nat.sub_self]
    rfl
  constructor
  case listed => exact Program.mem_listedBlocks.mpr ⟨f, reached.mem, member⟩
  case formed => exact ⟨f, (formed.functions f reached.mem).2 b member⟩
  case fresh => exact fun again => distinct.2.2 b again b (List.mem_cons_self ..) rfl
  case labeled => exact traces.numbers.labeled b among
  case number => exact traces.numbers.get place

/-- What a tour keeps: `inv` speaks of the blocks that are done, and of whether one of them was changed. -/
theorem after_tour_told {inv : List BlockRef → Bool → Run σ → Prop} {bad : Error → Run σ → Prop}
    (whole : tour.missing = none)
    (functions : ∀ done changed r, inv done changed r → ∀ f, r.program.function f = p.function f)
    (start : inv [] false r)
    (each : ∀ done b rest changed r, p.tracedBlocks tour = done ++ b :: rest → inv done changed r →
      After (instrumentBlock atomic b) r (fun here => inv (done ++ [b]) (here || changed)) bad) :
    After (tour.anyChange (instrumentFunction atomic)) r
      (fun changed r' => inv (p.tracedBlocks tour) changed r' ∧ (tour.visited = [] → r' = r)) bad := by
  -- The blocks of the functions that are done, then those of the next one.
  let blocks (fs : List FuncRef) : List BlockRef := fs.flatMap fun f => (p.function f).blocks
  have own (fs : List FuncRef) (f : FuncRef) (rest : List FuncRef) (before : Bool) (r : Run σ)
      (split : tour.visited = fs ++ f :: rest) (held : inv (blocks fs) before r) :
      After (instrumentFunction atomic f) r
        (fun changed => inv (blocks fs ++ (p.function f).blocks) (before || changed)) bad := by
    unfold instrumentFunction
    apply After.bind_get
    rw [functions _ _ r held]
    refine After.foldlM (fun own changed r => inv (blocks fs ++ own) (before || changed) r) ?_ ?_
    · rwa [List.append_nil, Bool.or_false]
    intro own b more changed r₁ inside held
    have split' : p.tracedBlocks tour = (blocks fs ++ own) ++ b :: (more ++ blocks rest) := by
      simp only [Program.tracedBlocks, blocks, split, inside, List.flatMap_append, List.flatMap_cons, List.append_assoc,
        List.cons_append]
    refine After.bind (After.mono (each _ b _ _ r₁ split' held) (fun here r₂ after => After.pure ?_)
      fun _ _ failed => failed)
    rwa [← List.append_assoc, Bool.or_left_comm]
  unfold Tour.anyChange Tour.foldM
  rw [whole]
  apply After.bind
  refine After.mono (After.foldlM (fun fs changed (r' : Run σ) => inv (blocks fs) changed r' ∧ (fs = [] → r' = r))
    ⟨start, fun _ => rfl⟩ ?_) (fun _ _ held => After.pure held) fun _ _ held => held
  intro fs f rest changed r₁ split held
  refine After.bind (After.mono (own fs f rest changed r₁ split held.1) (fun _ r₂ after => After.pure ⟨?_, ?_⟩)
    fun _ _ failed => failed)
  · simpa only [blocks, List.flatMap_append, List.flatMap_cons, List.flatMap_nil, List.append_nil] using after
  · intro none
    simp at none

/-- What a tour keeps, whether or not a block was changed. -/
theorem after_tour {inv : List BlockRef → Run σ → Prop} {bad : Error → Run σ → Prop} (whole : tour.missing = none)
    (functions : ∀ done r, inv done r → ∀ f, r.program.function f = p.function f) (start : inv [] r)
    (each : ∀ done b rest r, p.tracedBlocks tour = done ++ b :: rest → inv done r →
      After (instrumentBlock atomic b) r (fun _ => inv (done ++ [b])) bad) :
    After (tour.anyChange (instrumentFunction atomic)) r
      (fun _ r' => inv (p.tracedBlocks tour) r' ∧ (tour.visited = [] → r' = r)) bad :=
  have start' : (fun done (_ : Bool) r => inv done r) [] false r := start
  after_tour_told whole (fun done _ => functions done) start' fun done b rest _ => each done b rest

theorem after_anyChange (formed : p.WellFormed) (closed : p.Closed) (traces : p.Traces labels tour)
    (h : r.Progress good atomic p labels []) :
    After (tour.anyChange (instrumentFunction atomic)) r
      (fun _ r' => r'.Progress good atomic p labels (p.tracedBlocks tour) ∧ (tour.visited = [] → r' = r))
      (Stopped good atomic p labels (p.tracedBlocks tour)) := by
  refine after_tour traces.whole (fun _ _ held f => held.grows.function f) h fun done b rest r split held => ?_
  refine After.mono (after_instrumentBlock held closed (next_of_traces formed traces split)) ?_ ?_
  · exact fun _ _ after => after.2
  · exact fun e r' stopped => ⟨done, b, rest, split, stopped⟩

/-! ### Whole runs -/

/-- The state in which the blocks are visited. -/
theorem Progress.start (settings : Settings) (before : Run σ) (formed : p.WellFormed) (closed : p.Closed)
    (program : before.program = p) (job : r.job = (prepare settings before).job) (fresh : r.instrumented = 0) :
    r.Progress p.Ready atomic p r.labels [] := by
  subst program
  have same : r.program = before.program := by
    unfold program
    rw [job]
    rfl
  constructor
  case labeled => rfl
  case instrumented => exact fresh
  case grows =>
    rw [same]
    exact .refl _
  -- Nothing is pending and nothing is remembered at the start.
  case sound =>
    rintro ⟨numbered, positive⟩
    rw [job]
    exact ⟨⟨formed.linked closed positive, numbered, nofun, nofun⟩, fun none => absurd rfl none,
      fun none => absurd rfl none⟩
  case others =>
    intro b _
    rw [same]
  case counted => exact nofun

/-- Facts may be dropped at any time. -/
theorem Progress.forget (h : r.Progress good atomic p labels done) :
    ({ r with job.workspace.facts := {} } : Run σ).Progress good atomic p labels done where
  labeled := h.labeled
  instrumented := h.instrumented
  grows := h.grows
  sound assumed := by
    have sound := h.sound assumed
    exact ⟨⟨sound.workspace.linked, sound.workspace.numbered, nofun, nofun⟩, sound.variableId, sound.pointerTypeId⟩
  others := h.others
  counted b member := by
    obtain ⟨traceIndex, refs, o, number, counted, provides⟩ := h.counted b member
    refine ⟨traceIndex, refs, o, number, counted, fun assumed => ?_⟩
    obtain ⟨buffer, member, index, one⟩ := provides assumed
    exact ⟨buffer, member, index, one⟩

def told (hooks : Hooks σ) (labels : Labels) (r : Run σ) : σ :=
  (hooks.onLabels labels (hooks.onCount labels.size r)).host

/-- A run stops at once if the blocks cannot be numbered; otherwise it tells the hooks, which have no other part in it
if they are quiet, and counts the blocks in one tour. -/
theorem after_stages_told (settings : Settings) {hooks : Hooks σ} (quiet : hooks.Quiet) {good : Status → Run σ → Prop}
    {bad : Error → Run σ → Prop}
    (unnumbered : ∀ e, r.program.blockLabels = .error e → bad e (prepare settings r))
    (numbered : ∀ labels tour, r.program.Traces labels tour →
      After (tour.anyChange (instrumentFunction settings.atomic))
        { prepare settings r with labels, host := told hooks labels { prepare settings r with labels } }
        (fun changed r' => good (if changed then .changed else .unchanged) { r' with job.workspace.facts := {} }) bad) :
    After (run settings hooks) r good bad := by
  unfold run
  refine After.bind (After.modify (After.bind_get (After.bind (After.check ?_ unnumbered))))
  intro labels labeled
  obtain ⟨tour, traces⟩ := Program.blockLabels_ok labeled
  refine After.bind (After.modify (After.bind (After.modify (After.bind (After.modify ?_)))))
  have counting := numbered labels tour traces
  obtain ⟨host, first⟩ := quiet.onCount labels.size { prepare settings r with labels }
  obtain ⟨host', second⟩ := quiet.onLabels labels { prepare settings r with labels, host }
  have last : told hooks labels { prepare settings r with labels } = host' := by
    unfold told
    rw [first, second]
  rw [last] at counting
  rw [first]
  dsimp only
  rw [second]
  let start : Run σ := { prepare settings r with labels, host := host' }
  have toured : start.program.entryTour = .ok tour := traces.toured
  refine After.bind_get (After.bind (After.check ?_ ?_))
  -- Quiet hooks leave the calls alone, so the second tour is the first one again.
  · intro tour' again
    obtain rfl : tour' = tour := Except.ok.inj (again.symm.trans toured)
    refine After.bind (After.mono counting (fun changed r₁ after => ?_) fun _ _ failed => failed)
    exact After.bind (After.within (After.within (After.modify (After.pure after))))
  · intro e failed
    rw [toured] at failed
    cases failed

/-- The stages of a run, whatever the hooks were told. -/
theorem after_stages (settings : Settings) {hooks : Hooks σ} (quiet : hooks.Quiet) {good : Status → Run σ → Prop}
    {bad : Error → Run σ → Prop}
    (unnumbered : ∀ e, r.program.blockLabels = .error e → bad e (prepare settings r))
    (numbered : ∀ labels tour host, r.program.Traces labels tour →
      After (tour.anyChange (instrumentFunction settings.atomic)) { prepare settings r with labels, host }
        (fun changed r' => good (if changed then .changed else .unchanged) { r' with job.workspace.facts := {} }) bad) :
    After (run settings hooks) r good bad :=
  after_stages_told settings quiet unnumbered fun labels tour => numbered labels tour _

/-- A run that ends has counted all traced blocks. A run that fails for want of ids has counted the first of
them. -/
theorem after_run (settings : Settings) {hooks : Hooks σ} (quiet : hooks.Quiet) (formed : r.program.WellFormed)
    (closed : r.program.Closed) : After (run settings hooks) r
      (fun _ r' => ∃ tour, r.program.Traces r'.labels tour ∧ (tour.visited = [] → r'.program = r.program) ∧
        r'.Progress r.program.Ready settings.atomic r.program r'.labels (r.program.tracedBlocks tour))
      (fun e r' => e = .idsExhausted → ∃ tour, r.program.Traces r'.labels tour ∧
        Stopped r.program.Ready settings.atomic r.program r'.labels (r.program.tracedBlocks tour) e r') := by
  refine after_stages settings quiet (fun e failed same => ?_) fun labels tour host traces => ?_
  · subst same
    exact absurd failed r.program.blockLabels_sparesIds
  let start : Run σ := { prepare settings r with labels, host }
  have progress : start.Progress r.program.Ready settings.atomic r.program start.labels [] :=
    Progress.start settings r formed closed rfl rfl rfl
  refine After.mono (after_anyChange formed closed traces progress) ?_ ?_
  · rintro changed r₁ ⟨after, untouched⟩
    have labeled : r₁.labels = labels := after.labeled
    refine ⟨tour, labeled ▸ traces, fun none => ?_, ?_⟩
    · rw [untouched none]
      rfl
    · have last := after.forget
      rwa [← after.labeled] at last
  · intro e r₁ stopped _
    obtain ⟨done, b, rest, split, after, exhausted⟩ := stopped
    have labeled : r₁.labels = labels := after.labeled
    rw [← after.labeled] at after
    exact ⟨tour, labeled ▸ traces, done, b, rest, split, after, exhausted⟩

end Run

end BlockTally
