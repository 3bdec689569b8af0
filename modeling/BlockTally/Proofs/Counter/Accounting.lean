import BlockTally.Proofs.Counter.Spending

/-! The ids of a run, accounted for one by one.

The bound of a module after a run tells how much the run has added: each id from the old bound on is that of one new
declaration or of one instruction of an increment, and each of these has its ids in the order in which it is listed.
-/

set_option autoImplicit false

namespace BlockTally

open Change

variable {σ : Type}

namespace Program

variable {p q : Program} {b : BlockRef} {refs : List InstRef} {atomic : Bool} {done : List BlockRef}

/-- The instructions that a block has more in the second program, at the place where increments are inserted. -/
def additions (p q : Program) (b : BlockRef) : List InstRef :=
  ((q.body b).drop (p.insertionPoint b)).take ((q.body b).length - (p.body b).length)

theorem additions_of_block (block : q.block b = p.instrumented b refs) : p.additions q b = refs := by
  have body : q.body b = (p.body b).take (p.insertionPoint b) ++ (refs ++ (p.body b).drop (p.insertionPoint b)) :=
    (congrArg Block.body block).trans (List.append_assoc ..)
  have inside := p.insertionPoint_le b
  have longer : (q.body b).length - (p.body b).length = refs.length := by
    rw [body]
    simp only [List.length_append, List.length_take, List.length_drop]
    omega
  rw [additions, longer, body, List.drop_left' (by simp [inside]), List.take_left]

theorem additions_congr {q' : Program} (block : q'.block b = q.block b) : p.additions q' b = p.additions q b := by
  unfold additions body
  rw [block]

/-- The ids that are handed out so far are those of declarations and of the increments of the blocks that are done. -/
structure Balanced (atomic : Bool) (p : Program) (done : List BlockRef) (q : Program) : Prop where
  spends : p.Spends (done.flatMap fun b => q.idsOf (p.additions q b)) q
  length : ∀ b ∈ done, (q.idsOf (p.additions q b)).length = Increment.idCount atomic

theorem Balanced.length_ids (h : p.Balanced atomic done q) :
    (done.flatMap fun b => q.idsOf (p.additions q b)).length = Increment.idCount atomic * done.length := by
  rw [List.length_flatMap, List.map_congr_left h.length, List.map_const', List.sum_replicate_nat, Nat.mul_comm]

theorem mem_resultIds_of_declared {old new : List InstRef} {id : Id} (declarations : q.module.typesValues = old ++ new)
    (member : id ∈ new.map fun r => (q.inst r).resultId) (nonzero : id ≠ 0) : id ∈ q.resultIds := by
  obtain ⟨r, among, rfl⟩ := List.mem_map.mp member
  have listed : r ∈ q.module.list .typesValues := by
    change r ∈ q.module.typesValues
    exact declarations ▸ List.mem_append_right old among
  exact mem_resultIds.mpr ⟨r, mem_allInsts_of_list .typesValues listed, rfl, nonzero⟩

theorem mem_resultIds_of_instrumented {id : Id} (listed : b ∈ q.listedBlocks)
    (block : q.block b = p.instrumented b refs) (member : id ∈ q.idsOf refs) : id ∈ q.resultIds := by
  obtain ⟨r, among, result⟩ := mem_idsOf.mp member
  have inside : r ∈ q.body b := by
    unfold body
    exact block ▸ mem_instrumented.mpr (.inr among)
  exact mem_resultIds.mpr ⟨r, mem_allInsts.mpr (.inr ⟨b, listed, List.mem_cons_of_mem _ inside⟩), result⟩

theorem Spends.idsOf_eq {own : List Id} (h : p.Spends own q) (held : ∀ r ∈ refs, p.Holds r) :
    q.idsOf refs = p.idsOf refs :=
  idsOf_congr fun r member => (h.kept r (held r member)).2

/-- An id of a new declaration or of an increment is that of no other instruction. -/
theorem WellFormed.count_resultIds {old new : List InstRef} {id : Id} (h : q.WellFormed)
    (listed : q.listedBlocks = p.listedBlocks) (declarations : q.module.typesValues = old ++ new)
    (blocks : ∀ b, p.Traced b → q.block b = p.instrumented b (p.additions q b))
    (found : (id ∈ new.map fun r => (q.inst r).resultId) ∨ ∃ b, p.Traced b ∧ id ∈ q.idsOf (p.additions q b))
    (nonzero : id ≠ 0) : q.resultIds.count id = 1 := by
  refine List.count_eq_one_of_mem h.distinct ?_
  rcases found with declared | ⟨b, ⟨f, reached, member⟩, among⟩
  · exact mem_resultIds_of_declared declarations declared nonzero
  · refine mem_resultIds_of_instrumented ?_ (blocks b ⟨f, reached, member⟩) among
    rw [listed]
    exact mem_listedBlocks.mpr ⟨f, reached.mem, member⟩

end Program

namespace Run

variable {good : Prop} {atomic : Bool} {p : Program} {labels : Labels} {done : List BlockRef} {r r' : Run σ}
  {b : BlockRef} {j : Job} {refs : List InstRef}

/-- The increment of the next block is paid for. -/
theorem Progress.balance (h : r.Progress good atomic p labels done) (closed : p.Closed) (next : Next p labels done b)
    (balanced : p.Balanced atomic done r.program) (move : r.job.Advances good j) (pays : Job.Pays atomic r.job refs j) :
    p.Balanced atomic (done ++ [b]) (r.counted b j refs).program := by
  let q := (r.counted b j refs).program
  have later : r.program.Spends (j.workspace.program.idsOf refs) q := pays.spends.inserted b _ refs
  -- The insertion is into another block than those before, and leaves their instructions alone.
  have before (c : BlockRef) (member : c ∈ done) :
      q.idsOf (p.additions q c) = r.program.idsOf (p.additions r.program c) := by
    have other : c ≠ b := fun same => next.fresh (same ▸ member)
    have block : q.block c = r.program.block c :=
      (Program.block_inserted_of_ne other).trans (move.workspace.program.block c)
    obtain ⟨_, older, _, -, counted, -⟩ := h.counted c member
    rw [Program.additions_congr block, Program.additions_of_block counted.block]
    exact later.idsOf_eq fun i among => (counted.new i among).2
  have here : q.idsOf (p.additions q b) = j.workspace.program.idsOf refs := by
    have unchanged : j.workspace.program.block b = p.block b :=
      (move.workspace.program.block b).trans (h.others b next.fresh)
    have old : b.index < j.workspace.program.blocks.size := by
      obtain ⟨f, formed⟩ := next.formed
      exact Program.index_lt_of_owner (unchanged ▸ formed.owner)
    have block : q.block b = p.instrumented b refs := by
      change (j.workspace.program.inserted b (r.program.insertionPoint b) refs).block b = _
      rw [h.insertionPoint closed next]
      exact Program.block_inserted_of_unchanged old unchanged
    rw [Program.additions_of_block block]
    exact Program.idsOf_congr fun i _ => congrArg Instruction.resultId (Program.inst_inserted i)
  constructor
  · rw [List.flatMap_append, List.flatMap_singleton, List.flatMap_congr before, here]
    exact balanced.spends.trans later
  · intro c member
    rcases List.mem_append.mp member with old | last
    · rw [before c old]
      exact balanced.length c old
    · obtain rfl := List.mem_singleton.mp last
      rw [here]
      exact pays.length

theorem after_instrumentBlock_balanced (formed : p.WellFormed) (closed : p.Closed) (numbered : p.ConstantsNumbered)
    (h : r.Progress good atomic p labels done ∧ p.Balanced atomic done r.program) (next : Next p labels done b) :
    After (instrumentBlock atomic b) r (fun _ r' => r'.Progress good atomic p labels (done ++ [b]) ∧
      p.Balanced atomic (done ++ [b]) r'.program) fun _ _ => True := by
  obtain ⟨progress, balanced⟩ := h
  have positive : 0 < r.job.workspace.program.module.idBound :=
    Int.lt_of_lt_of_le (ready_of_next formed numbered next).2 balanced.spends.bound_le
  refine progress.after_counting closed next (.mono ((Job.keeps_increment atomic done.length progress.sane).and
    (Job.after_increment_pays positive atomic done.length)) ?_ fun _ _ _ => True.intro)
  rintro refs j ⟨⟨move, o, made⟩, pays⟩
  exact ⟨progress.insert closed next move made, progress.balance closed next balanced move pays⟩

theorem after_run_balanced (settings : Settings) {hooks : Hooks σ} (quiet : hooks.Quiet) (formed : r.program.WellFormed)
    (closed : r.program.Closed) (numbered : r.program.ConstantsNumbered) : After (run settings hooks) r
      (fun _ r' => ∃ tour, r.program.Traces r'.labels tour ∧ (tour.visited = [] → r'.program = r.program) ∧
        r'.Progress r.program.Ready settings.atomic r.program r'.labels (r.program.tracedBlocks tour) ∧
        r.program.Balanced settings.atomic (r.program.tracedBlocks tour) r'.program)
      fun _ _ => True := by
  refine after_stages settings quiet (fun _ _ => True.intro) fun labels tour host traces => ?_
  let start : Run σ := { prepare settings r with labels, host }
  have progress : start.Progress r.program.Ready settings.atomic r.program start.labels [] :=
    Progress.start settings r formed closed rfl rfl rfl
  let inv (done : List BlockRef) (r₁ : Run σ) : Prop :=
    r₁.Progress r.program.Ready settings.atomic r.program labels done ∧
      r.program.Balanced settings.atomic done r₁.program
  have started : inv [] start := ⟨progress, .refl _, nofun⟩
  -- The account of each block is an invariant of the tour.
  have toured : After (tour.anyChange (instrumentFunction settings.atomic)) start
      (fun _ r₁ => inv (r.program.tracedBlocks tour) r₁ ∧ (tour.visited = [] → r₁ = start)) fun _ _ => True := by
    refine after_tour traces.whole (fun _ _ held f => held.1.grows.function f) started ?_
    intro done b rest r₁ split held
    exact after_instrumentBlock_balanced formed closed numbered held (next_of_traces formed traces split)
  refine .mono toured ?_ fun _ _ _ => True.intro
  rintro changed r₁ ⟨⟨after, balanced⟩, untouched⟩
  have labeled : r₁.labels = labels := after.labeled
  refine ⟨tour, labeled ▸ traces, fun none => ?_, ?_, balanced⟩
  · rw [untouched none]
    rfl
  · have last := after.forget
    rwa [← after.labeled] at last

structure Accounted (atomic : Bool) (p q : Program) (new : List InstRef) (instrumented : Nat) : Prop where
  declarations : q.module.typesValues = p.module.typesValues ++ new
  blocks : ∀ b, p.Traced b → q.block b = p.instrumented b (p.additions q b)
  others : ∀ b, ¬p.Traced b → q.block b = p.block b
  once : ∀ id, p.module.idBound ≤ id → id < q.module.idBound → q.resultIds.count id = 1
  found : ∀ id, (id ∈ new.map fun r => (q.inst r).resultId) ∨ (∃ b, p.Traced b ∧ id ∈ q.idsOf (p.additions q b)) ↔
    p.module.idBound ≤ id ∧ id < q.module.idBound
  amount : q.module.idBound = p.module.idBound + (new.length + Increment.idCount atomic * instrumented : Nat)
  increasing : (new.map fun r => (q.inst r).resultId).Pairwise (· < ·)
  sequences : ∀ b, p.Traced b → (q.idsOf (p.additions q b)).Pairwise (· < ·)

/-- A run that ends has used every id that it took for one new declaration or for one inserted instruction. -/
theorem accounted_of_run {settings : Settings} {hooks : Hooks σ} {status : Status} (quiet : hooks.Quiet)
    (valid : r.program.validate = .ok ()) (closed : r.program.Closed) (numbered : r.program.ConstantsNumbered)
    (ran : run settings hooks r = .ok status r') :
    ∃ new, Accounted settings.atomic r.program r'.program new r'.instrumented := by
  have formed := Program.validate_ok_iff.mp valid
  have formed' := (startable_of_run quiet ⟨formed, closed, numbered⟩ ran).formed
  obtain ⟨tour, traces, untouched, progress, balanced⟩ :=
    (after_run_balanced settings quiet formed closed numbered).of_ok ran
  obtain ⟨new, declarations, held, dealt⟩ := balanced.spends.dealt
  have found (id : Int) : ((id ∈ new.map fun r => (r'.program.inst r).resultId) ∨
      ∃ b, r.program.Traced b ∧ id ∈ r'.program.idsOf (r.program.additions r'.program b)) ↔
        r.program.module.idBound ≤ id ∧ id < r'.program.module.idBound := by
    rw [← dealt.mem_iff]
    simp only [List.mem_flatMap, traces.mem_iff]
  have blocks (b : BlockRef) (member : r.program.Traced b) :
      r'.program.block b = r.program.instrumented b (r.program.additions r'.program b) := by
    obtain ⟨_, refs, _, -, counted, -⟩ := progress.counted b (traces.mem_iff.mpr member)
    rw [Program.additions_of_block counted.block, counted.block]
  refine ⟨new, declarations, blocks, fun b other => ?_, fun id low high => ?_, found, ?_, dealt.increasing.1,
    fun b member => ?_⟩
  · exact progress.others b fun member => other (traces.mem_iff.mp member)
  -- Without a block to count nothing has changed, whatever the bound is.
  · by_cases none : tour.visited = []
    · rw [untouched none] at high
      exact absurd low (Int.not_le.mpr high)
    have nonzero : id ≠ 0 := Int.ne_of_gt (Int.lt_of_lt_of_le (ready_of_visited formed numbered traces none).2 low)
    exact formed'.count_resultIds progress.grows.listedBlocks declarations blocks ((found id).mpr ⟨low, high⟩) nonzero
  · have length := dealt.length
    rw [balanced.length_ids, List.length_map] at length
    rw [progress.instrumented]
    omega
  · exact (List.pairwise_flatMap.mp dealt.increasing.2).1 b (traces.mem_iff.mpr member)

theorem accounted_of_run_sample : ∃ new,
    Accounted true (sampleRun 8).program (finalState (run {} {} (sampleRun 8))).program new 2 := by
  have valid : (sampleRun 8).program.validate = .ok () := by decide +kernel
  have ran := eq_ok_of_answer (by decide +kernel : answer? (run {} {} (sampleRun 8)) = some .changed)
  obtain ⟨new, accounted⟩ := accounted_of_run Hooks.quiet_default valid (by decide) (by decide) ran
  have two : (finalState (run {} {} (sampleRun 8))).instrumented = 2 := by decide +kernel
  exact ⟨new, two ▸ accounted⟩

end Run

end BlockTally
