import BlockTally.Proofs.Counter.Run

/-! The numbering of a counted module.

Increments call no function, and an interface that gets longer still belongs to the same function. So a module whose
blocks were counted is toured and numbered as it was before.
-/

set_option autoImplicit false

namespace BlockTally

namespace Program

variable {p q : Program} {labels labels' : Labels} {tour tour' : Tour} {b : BlockRef} {f : FuncRef}

def callsIn (p : Program) (b : BlockRef) : List InstRef :=
  (p.body b).filter fun r => (p.inst r).opcode = .functionCall

/-- The second program has grown from the first one, and its blocks have their labels and call what they called. -/
structure KeepsCalls (p q : Program) : Prop where
  grows : p.Grows q
  label : ∀ b, (q.block b).label = (p.block b).label
  calls : ∀ b ∈ p.listedBlocks, q.callsIn b = p.callsIn b

theorem callees_eq (p : Program) (f : FuncRef) :
    p.callees f = ((p.function f).blocks.flatMap p.callsIn).mapM fun r => (p.inst r).value 0 := by
  unfold callees functionBody callsIn
  rw [List.filter_flatMap]

theorem callsIn_congr (body : q.body b = p.body b) (same : ∀ r ∈ p.body b, (q.inst r).opcode = (p.inst r).opcode) :
    q.callsIn b = p.callsIn b := by
  unfold callsIn
  rw [body]
  exact List.filter_congr fun r member => by rw [same r member]

/-- Instructions that call no function are put into a block. -/
theorem callsIn_instrumented {refs : List InstRef} (block : q.block b = p.instrumented b refs)
    (same : ∀ r ∈ p.body b, (q.inst r).opcode = (p.inst r).opcode)
    (new : ∀ r ∈ refs, (q.inst r).opcode ≠ .functionCall) : q.callsIn b = p.callsIn b := by
  have body : q.body b = (p.instrumented b refs).body := congrArg Block.body block
  have none : refs.filter (fun r => (q.inst r).opcode = .functionCall) = [] :=
    List.filter_eq_nil_iff.mpr fun r member => by simpa using new r member
  unfold callsIn
  rw [body, instrumented, List.filter_append, List.filter_append, none, List.append_nil, ← List.filter_append,
    List.take_append_drop]
  exact List.filter_congr fun r member => by rw [same r member]

namespace KeepsCalls

variable (h : p.KeepsCalls q) (closed : p.Closed)
include h closed

theorem callees {ids : List Value} (listed : f ∈ p.module.functions) (read : p.callees f = .ok ids) :
    q.callees f = .ok ids := by
  have blocks {b : BlockRef} (member : b ∈ (p.function f).blocks) : b ∈ p.listedBlocks :=
    mem_listedBlocks.mpr ⟨f, listed, member⟩
  have calls : (p.function f).blocks.flatMap q.callsIn = (p.function f).blocks.flatMap p.callsIn :=
    List.flatMap_congr fun b member => h.calls b (blocks member)
  rw [callees_eq] at read ⊢
  rw [h.grows.function, calls]
  refine except_mapM_ok_congr read fun r member id value => ?_
  obtain ⟨b, among, inside⟩ := List.mem_flatMap.mp member
  have held : p.Holds r := closed r (mem_allInsts.mpr
    (.inr ⟨b, blocks among, List.mem_cons_of_mem _ (List.mem_of_mem_filter inside)⟩))
  obtain ⟨more, same⟩ := h.grows.extended held
  rw [same]
  exact value_extended value

theorem functionId (listed : f ∈ p.module.functions) : q.functionId f = p.functionId f := by
  unfold Program.functionId
  rw [h.grows.function]
  refine h.grows.resultId (closed _ (List.mem_append_right _ (List.mem_flatMap.mpr ⟨f, listed, ?_⟩)))
  simp [functionInsts]

theorem blockId (listed : b ∈ p.listedBlocks) : q.blockId b = p.blockId b :=
  h.grows.blockId (h.label b) (closed _ (mem_allInsts.mpr (.inr ⟨b, listed, List.mem_cons_self ..⟩)))

theorem entryTour (toured : p.entryTour = .ok tour) : q.entryTour = .ok tour := by
  obtain ⟨roots, read, toured⟩ := except_bind_ok_iff.mp toured
  obtain ⟨graph, described, toured⟩ := except_bind_ok_iff.mp toured
  refine except_bind_ok_iff.mpr ⟨roots, ?_, except_bind_ok_iff.mpr ⟨graph, ?_, toured⟩⟩
  · unfold entryIds
    rw [h.grows.module.entryPoints]
    refine except_mapM_ok_congr read fun r entry id value => ?_
    obtain ⟨more, same⟩ := h.grows.extended (closed r (mem_allInsts_of_list .entryPoints entry))
    rw [same]
    exact value_extended value
  · unfold Calls.ofProgram
    rw [h.grows.module.functions]
    refine except_foldlM_ok_congr described fun f listed calls calls' added => ?_
    obtain ⟨ids, read, last⟩ := except_bind_ok_iff.mp added
    refine except_bind_ok_iff.mpr ⟨ids, h.callees closed listed read, ?_⟩
    rw [h.functionId closed listed]
    exact last

/-- The blocks are traced and numbered as before. -/
theorem traces (before : p.Traces labels tour) : q.Traces labels tour := by
  have blocks : q.tracedBlocks tour = p.tracedBlocks tour :=
    List.flatMap_congr fun f _ => congrArg Function.blocks (h.grows.function f)
  have ids {b : BlockRef} (member : b ∈ p.tracedBlocks tour) : q.blockId b = p.blockId b := by
    obtain ⟨f, reached, among⟩ := before.mem_iff.mp member
    exact h.blockId closed (mem_listedBlocks.mpr ⟨f, reached.mem, among⟩)
  have keys : (p.tracedBlocks tour).map q.blockId = (p.tracedBlocks tour).map p.blockId :=
    List.map_congr_left fun b => ids
  refine ⟨h.entryTour closed before.toured, before.whole, ?_⟩
  rw [blocks]
  constructor
  · rw [keys]
    exact before.numbers.entries
  · rw [keys]
    exact before.numbers.distinct
  · intro b member
    rw [ids member]
    exact before.numbers.labeled b member

end KeepsCalls

/-- There is one numbering only. -/
theorem Traces.unique (first : p.Traces labels tour) (second : p.Traces labels' tour') :
    labels' = labels ∧ tour' = tour := by
  obtain rfl := Except.ok.inj (second.toured.symm.trans first.toured)
  exact ⟨congrArg Table.mk (second.numbers.entries.trans first.numbers.entries.symm), rfl⟩

end Program

variable {σ : Type} {good : Prop} {atomic : Bool} {p : Program} {labels : Labels} {done : List BlockRef} {r : Run σ}

theorem Run.Progress.keepsCalls (h : r.Progress good atomic p labels done) (closed : p.Closed) :
    p.KeepsCalls r.program := by
  refine ⟨h.grows, fun b => ?_, fun b listed => ?_⟩
  · by_cases member : b ∈ done
    · obtain ⟨_, _, _, -, counted, -⟩ := h.counted b member
      rw [counted.block]
      rfl
    · rw [h.others b member]
  · have same : ∀ i ∈ p.body b, (r.program.inst i).opcode = (p.inst i).opcode := fun i inside =>
      h.grows.opcode (holds_of_listed closed listed (List.mem_cons_of_mem _ inside))
    by_cases member : b ∈ done
    · obtain ⟨_, refs, _, -, counted, -⟩ := h.counted b member
      exact Program.callsIn_instrumented counted.block same fun i among =>
        counted.form.not_call (List.mem_map_of_mem among)
    · exact Program.callsIn_congr (congrArg Block.body (h.others b member)) same

end BlockTally
