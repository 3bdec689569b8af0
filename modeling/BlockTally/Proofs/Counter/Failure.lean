import BlockTally.Proofs.Counter.Numbering
import BlockTally.Proofs.Counter.Outcome
import BlockTally.Proofs.Counter.Supply

/-! Where a run can fail.

Once the blocks are numbered a job is at work that fails for no reason of form, and never, up to the ids that run out,
if nothing is missing in the module. So the form of a module is found wanting at the start, when nothing has been
changed and nothing was told.
-/

set_option autoImplicit false

namespace BlockTally

variable {σ : Type} {shaped typed : Prop}

/-- What is put into a block is no part of the supply. -/
theorem Job.Supplied.inserted {limit : Int} {t : TypeTable} {j : Job} (h : j.Supplied shaped typed limit t)
    (b : BlockRef) (gap : Nat) (refs : List InstRef) : (j.inserted b gap refs).Supplied shaped typed limit t where
  steady := h.steady.inserted b gap refs
  limit_le := by
    have same : (j.inserted b gap refs).workspace.program.module = j.workspace.program.module := Program.module_inserted
    exact same ▸ h.limit_le
  taken := h.taken
  variableId assumed declared := Program.fixesVariable_inserted.mpr (h.variableId assumed declared)
  pointerTypeId := h.pointerTypeId

namespace Run

open Change

variable {atomic : Bool} {p : Program} {labels : Labels} {tour : Tour} {r : Run σ} {b : BlockRef} {traceIndex : Nat}

/-- A run on the way, that started from the program `p`: a job is at work, and the blocks have the labels that were
numbered. -/
structure Underway (shaped typed : Prop) (p : Program) (labels : Labels) (r : Run σ) : Prop where
  labeled : r.labels = labels
  working : r.job.Working shaped typed p.module.idBound
  grows : p.Grows r.program
  label : ∀ b, (r.program.block b).label = (p.block b).label

def Counts (shaped typed : Prop) (p : Program) (atomic : Bool) (traceIndex : Int) (b : BlockRef) (r r' : Run σ) :
    Prop :=
  ∃ refs j, Job.Increments shaped typed p.module.idBound atomic traceIndex r.job refs j ∧ r' = r.counted b j refs

theorem Underway.counts {r' : Run σ} (h : r.Underway shaped typed p labels)
    (counts : Counts shaped typed p atomic traceIndex b r r') : r'.Underway shaped typed p labels := by
  obtain ⟨refs, j, made, rfl⟩ := counts
  obtain ⟨t, supplied⟩ := made.working
  have grows : p.Grows j.workspace.program := h.grows.trans made.program.toGrows
  refine ⟨h.labeled, .supplied (supplied.inserted b _ refs), grows.inserted b _ fun i member => ?_, fun c => ?_⟩
  · exact Nat.le_trans h.grows.size_le (made.new i member).1
  · exact (Program.label_inserted c).trans ((congrArg Block.label (made.program.block c)).trans (h.label c))

/-- A block that has a number is counted or left alone, until the ids run out. -/
theorem safe_instrumentBlock (h : r.Underway shaped typed p labels) (held : p.Holds (p.block b).label)
    (number : labels.get? (p.blockId b) = some traceIndex)
    (below : shaped → (traceIndex : Int) < p.module.idBound) :
    Safe shaped (instrumentBlock atomic b) r fun changed r' =>
      (changed = false ∧ r' = r) ∨ Counts shaped typed p atomic traceIndex b r r' := by
  have found : r.labels.get? (r.program.blockId b) = some traceIndex := by
    rw [h.labeled, h.grows.blockId (h.label b) held]
    exact number
  exact after_counting found (fun _ => .inl ⟨rfl, rfl⟩) fun _ =>
    Safe.mono (Job.safe_increment atomic traceIndex h.working below) fun refs j made => .inr ⟨refs, j, made, rfl⟩

/-- A run is on the way when the first block is to be counted. -/
theorem Underway.start {settings : Settings} {host : σ} (legible : r.program.Legible shaped typed) :
    Underway shaped typed r.program labels { prepare settings r with labels, host } where
  labeled := rfl
  working := .fresh rfl ⟨rfl, rfl⟩ legible (Int.le_refl _)
  grows := .refl _
  label _ := rfl

/-- A traced block is met with its number, and has a label that was given out. -/
theorem holds_of_traces (closed : p.Closed) (traces : p.Traces labels tour) {done rest : List BlockRef}
    (split : p.tracedBlocks tour = done ++ b :: rest) :
    p.Holds (p.block b).label ∧ labels.get? (p.blockId b) = some done.length := by
  have place : (p.tracedBlocks tour)[done.length]? = some b := by
    rw [split, List.getElem?_append_right (Nat.le_refl _), Nat.sub_self]
    rfl
  refine ⟨?_, traces.numbers.get place⟩
  obtain ⟨f, reached, member⟩ := traces.mem_iff.mp (List.mem_of_getElem? place)
  exact holds_of_listed closed (Program.mem_listedBlocks.mpr ⟨f, reached.mem, member⟩) (List.mem_cons_self ..)

/-- A run whose blocks are numbered fails for no reason of form, and if nothing is missing for want of ids only. The
module needs to be legible only if there is a block to count. -/
theorem after_run_spared (settings : Settings) {hooks : Hooks σ} (quiet : hooks.Quiet) (closed : r.program.Closed)
    (legible : ∀ b, r.program.Traced b → r.program.Legible shaped typed)
    (below : shaped → ∀ labels tour, r.program.Traces labels tour →
      (r.program.tracedBlocks tour).length ≤ r.program.module.idBound.toNat) :
    After (run settings hooks) r (fun _ _ => True)
      (fun e r' => e.Spared shaped ∨ (r.program.blockLabels = .error e ∧ r' = prepare settings r)) := by
  refine after_stages settings quiet (fun e failed => .inr ⟨failed, rfl⟩) fun labels tour host traces => ?_
  -- The module may be illegible if there is no block to count, so what is underway is told only if there is one.
  let inv (_ : List BlockRef) (r' : Run σ) : Prop := (∀ f, r'.program.function f = r.program.function f) ∧
    ∀ b, r.program.Traced b → r'.Underway shaped typed r.program labels
  have functions (done : List BlockRef) (r' : Run σ) (held : inv done r') := held.1
  have begins : inv [] { prepare settings r with labels, host } :=
    ⟨fun _ => rfl, fun b traced => .start (legible b traced)⟩
  refine After.mono (after_tour traces.whole functions begins fun done b rest r' split held => ?_)
    (fun _ _ _ => True.intro) fun e _ spared => .inl spared
  have traced : r.program.Traced b := traces.mem_iff.mp (split ▸ List.mem_append_right _ (List.mem_cons_self ..))
  obtain ⟨label, number⟩ := holds_of_traces closed traces split
  refine (safe_instrumentBlock (held.2 b traced) label number fun assumed => ?_).mono fun changed r'' counts => ?_
  · have room := below assumed labels tour traces
    rw [split, List.length_append, List.length_cons] at room
    omega
  · rcases counts with ⟨-, rfl⟩ | counts
    · exact held
    · have underway := (held.2 b traced).counts counts
      exact ⟨fun f => underway.grows.function f, fun _ _ => underway⟩

/-- A run does not begin if the blocks cannot be numbered. -/
theorem run_of_unnumbered (settings : Settings) (hooks : Hooks σ) {e : Error}
    (failed : r.program.blockLabels = .error e) : run settings hooks r = .error e (prepare settings r) := by
  have check : (liftM r.program.blockLabels : Running σ Labels) (prepare settings r) =
      .error e (prepare settings r) := by
    rw [failed]
    rfl
  have prepared : (modify (prepare settings) : Running σ Unit) r = .ok () (prepare settings r) := rfl
  exact (bind_of_ok prepared).trans (get_bind.trans (bind_of_error check))

/-- A run that fails for the form of the module fails because the blocks cannot be numbered. The module is as it was,
and no hook was asked: with any others the run ends in the same way. -/
theorem untouched_of_formal {settings : Settings} {hooks : Hooks σ} (quiet : hooks.Quiet) (closed : r.program.Closed)
    (positive : 0 < r.program.module.idBound) (below : ∀ id ∈ r.program.resultIds, id < r.program.module.idBound)
    (numbered : ∀ i ∈ r.program.module.typesValues, (r.program.inst i).resultId ≠ 0)
    (distinct : (r.program.module.typesValues.map fun i => (r.program.inst i).resultId).Nodup) {e : Error}
    {r' : Run σ} (failed : run settings hooks r = .error e r') (formal : e.IsFormal) :
    e.IsUnnumbered ∧ r'.program = r.program ∧ r'.host = r.host ∧
      ∀ other : Hooks σ, run settings other r = .error e r' := by
  have types : ∀ i ∈ r.program.declarations, i ∈ r.program.module.typesValues := fun _ => List.mem_of_mem_filter
  have own : r.program.idsOf r.program.declarations =
      r.program.declarations.map fun i => (r.program.inst i).resultId :=
    Program.idsOf_declarations fun i member => numbered i (types i member)
  have legible : r.program.Legible False False := by
    refine ⟨positive, ?_, fun id member => below id ?_, False.elim, False.elim, False.elim, False.elim, False.elim,
      False.elim⟩
    · exact own ▸ distinct.sublist (List.filter_sublist.map _)
    · obtain ⟨i, member, result⟩ := Program.mem_idsOf.mp member
      exact Program.mem_idsOf.mpr ⟨i, Program.mem_allInsts_of_list .typesValues (types i member), result⟩
  rcases (after_run_spared settings quiet closed (fun _ _ => legible) False.elim).of_error failed with
    spared | ⟨unnumbered, rfl⟩
  · exact absurd formal spared.1
  -- Numbering the blocks fails with a fault or for the form of the module, and a fault is not formal.
  have kind : e.IsUnnumbered := (r.program.blockLabels_failsOnly e unnumbered).resolve_left fun fault =>
    fault.not_formal formal
  exact ⟨kind, rfl, rfl, fun other => run_of_unnumbered settings other unnumbered⟩

/-- A run on the sample, in which the second function has the label of the first. -/
def clash : Run (List Nat) where
  job := { workspace := { program := (sample 8).changeInst ⟨9⟩ fun i => { i with resultId := 4 } } }
  host := []

def noting : Hooks (List Nat) where
  onCount count r := { r with host := count :: r.host }

theorem quiet_noting : noting.Quiet :=
  ⟨fun count r => ⟨count :: r.host, rfl⟩, fun _ r => ⟨r.host, rfl⟩⟩

theorem untouched_of_formal_clash : ∃ r', run {} noting clash = .error (.invariant (.repeatedLabel 4)) r' ∧
    r'.program = clash.program ∧ r'.host = [] ∧
      run {} {} clash = .error (.invariant (.repeatedLabel 4)) r' := by
  have failed := eq_error_of_error
    (by decide +kernel : error? (run {} noting clash) = some (.invariant (.repeatedLabel 4)))
  obtain ⟨-, program, host, others⟩ := untouched_of_formal quiet_noting (by decide) (by decide) (by decide) (by decide)
    (by decide) failed True.intro
  exact ⟨_, failed, program, host, others {}⟩

end Run

end BlockTally
