import BlockTally.Proofs.Facts.Annotations
import BlockTally.Proofs.Facts.Features
import BlockTally.Proofs.Facts.Uses
import BlockTally.Proofs.Program.Instrumentation
import BlockTally.Proofs.Program.Layout
import BlockTally.Workspace.Edit

/-! Facts that follow the program.

The uses, annotations and features that were found in a workspace are brought along by its edits, so they stay those
of the program as it is. What was found first does not matter, nor does the order of the edits.
-/

set_option autoImplicit false

namespace BlockTally

namespace Program

variable {p q : Program} {place : Section} {r : InstRef} {refs : List InstRef} {b : BlockRef}

/-- The features and annotations are declared by the same instructions, which may have more operands. -/
structure Rereads (p q : Program) : Prop where
  capabilities : q.module.capabilities = p.module.capabilities
  extensions : q.module.extensions = p.module.extensions
  annotations : q.module.annotations = p.module.annotations
  extended : ∀ r ∈ p.allInsts, ∃ more, q.inst r = (p.inst r).extended more

theorem rereads_of_same (module : q.module = p.module) (same : ∀ r ∈ p.allInsts, q.inst r = p.inst r) :
    p.Rereads q where
  capabilities := by rw [module]
  extensions := by rw [module]
  annotations := by rw [module]
  extended r member := ⟨[], by rw [same r member, Instruction.extended_nil]⟩

/-- Each instruction is listed once, and the ids that functions define have been taken. -/
structure Orderly (p : Program) : Prop where
  distinct : p.allInsts.Nodup
  closed : p.Closed
  taken : ∀ id ∈ p.idsOf p.functionPart, id < p.module.idBound

/-- The name that the next instruction gets is not listed. -/
theorem Orderly.next (h : p.Orderly) : ⟨p.instructions.size⟩ ∉ p.allInsts :=
  fun member => Nat.lt_irrefl _ (h.closed _ member)

/-- An instruction that may be listed at the end of a section, because its result id is new there. -/
structure Unlisted (p : Program) (place : Section) (r : InstRef) : Prop where
  held : p.Holds r
  new : r ∉ p.allInsts
  result : (p.inst r).resultId ∉ p.resultIds ∨
    place = .typesValues ∧ (p.inst r).resultId ∉ p.idsOf p.functionPart

theorem defines_apart {v : Value} (absent : (p.inst r).resultId ∉ p.idsOf refs) :
    ∀ s ∈ refs, (p.inst r).defines v = true → (p.inst s).defines v = false := by
  intro s member defined
  by_contra again
  simp only [Instruction.defines, Instruction.hasResult, Bool.and_eq_true, bne_iff_ne, decide_eq_true_eq,
    Bool.not_eq_false] at defined again
  have same : (p.inst s).resultId = (p.inst r).resultId := Value.int.inj (again.2.trans defined.2.symm)
  exact absent (mem_idsOf.mpr ⟨s, member, same, defined.1⟩)

/-- An index that was told of a new entry of a section last is one of the longer module. -/
theorem indexes_appended {u : Uses} (isOpen : place.isOpen = true)
    (result : (p.inst r).resultId ∉ p.resultIds ∨
      place = .typesValues ∧ (p.inst r).resultId ∉ p.idsOf p.functionPart)
    (indexed : u.Indexes p.inst (p.allInsts ++ [r])) :
    u.Indexes (p.appended place r).inst (p.appended place r).allInsts := by
  obtain ⟨front, back, before, after, last⟩ := p.exists_split_appended r isOpen
  have absent : (p.inst r).resultId ∉ p.idsOf back := by
    rcases result with unused | ⟨types, unused⟩
    · exact fun member => unused ((p.idsOf_sublist (before ▸ List.sublist_append_right _ _)).subset member)
    · rwa [last types]
  rw [before] at indexed
  rw [after]
  exact indexed.exchange fun v s member => by
    obtain rfl := List.mem_singleton.mp member
    exact defines_apart absent

theorem Orderly.appended (h : p.Orderly) (isOpen : place.isOpen = true) (held : p.Holds r) (new : r ∉ p.allInsts) :
    (p.appended place r).Orderly where
  distinct := by
    rw [(p.allInsts_appended_perm place r).nodup_iff]
    exact List.nodup_cons.mpr ⟨new, h.distinct⟩
  closed s member := by
    rcases List.mem_cons.mp ((p.allInsts_appended_perm place r).mem_iff.mp member) with rfl | old
    · exact held
    · exact h.closed s old
  taken id member := by
    have inside := (p.grows_appended r isOpen).functionPart rfl
    rw [inside] at member
    exact Int.lt_of_lt_of_le (h.taken id member) (p.grows_appended r isOpen).module.bound_le

theorem Orderly.nextBound (h : p.Orderly) : p.nextBound.Orderly where
  distinct := h.distinct
  closed := h.closed
  taken id member := Int.lt_trans (h.taken id member) (Int.lt_succ _)

theorem Orderly.idsOf_made (h : p.Orderly) (i : Instruction) :
    (p.made i).idsOf (p.made i).functionPart = p.idsOf p.functionPart :=
  idsOf_congr fun r member => by rw [inst_made_of_lt i (h.closed r (p.functionPart_subset member))]

theorem Orderly.made (h : p.Orderly) (i : Instruction) : (p.made i).Orderly where
  distinct := h.distinct
  closed r member := Nat.lt_of_lt_of_eq (Nat.lt_succ_of_lt (h.closed r member)) (p.size_made i).symm
  taken id member := h.taken id (h.idsOf_made i ▸ member)

theorem Orderly.withOperand (h : p.Orderly) (r : InstRef) (operand : Operand) : (p.withOperand r operand).Orderly where
  distinct := h.distinct
  closed s member := Nat.lt_of_lt_of_eq (h.closed s member) (p.size_withOperand r operand).symm
  taken id member := by
    refine h.taken id ?_
    have same : (p.withOperand r operand).idsOf p.functionPart = p.idsOf p.functionPart := by
      refine idsOf_congr fun s _ => ?_
      obtain ⟨more, grown⟩ := p.inst_withOperand_extended r s operand
      rw [grown]
      rfl
    rw [← same]
    exact member

end Program

/-! ### Facts that follow -/

structure Facts.ReadFrom (facts : Facts) (texts : Set Value) (p : Program) : Prop where
  annotations : ∀ a, facts.annotations = some a → Annotations.ofProgram p = .ok a
  features : ∀ f, facts.features = some f → f.Reads texts p

theorem Facts.ReadFrom.reread {facts : Facts} {texts : Set Value} {p q : Program} (h : facts.ReadFrom texts p)
    (same : p.Rereads q) : facts.ReadFrom texts q where
  annotations a found := by
    unfold Annotations.ofProgram
    rw [same.annotations]
    refine Annotations.foldlM_extended (h.annotations a found) fun r member => ?_
    exact same.extended r (Program.mem_allInsts_of_list .annotations member)
  features f found :=
    (h.features f found).extended same.capabilities same.extensions fun place r member =>
      same.extended r (Program.mem_allInsts_of_list place member)

namespace Workspace

/-- The facts that were found are those of the program, and the uses are those of the given instructions. -/
structure Tracks (w : Workspace) (texts : Set Value) (refs : List InstRef) : Prop where
  orderly : w.program.Orderly
  reading : w.facts.ReadFrom texts w.program
  uses : ∀ u, w.facts.uses = some u → u.Indexes w.program.inst refs

abbrev Tracked (w : Workspace) (texts : Set Value) : Prop :=
  w.Tracks texts w.program.allInsts

variable {w : Workspace} {texts : Set Value} {place : Section} {r : InstRef} {refs : List InstRef}

theorem Tracks.mono {texts' : Set Value} (h : w.Tracks texts refs) (more : texts ⊆ texts') : w.Tracks texts' refs where
  orderly := h.orderly
  reading := ⟨h.reading.annotations, fun f found => (h.reading.features f found).mono more⟩
  uses := h.uses

/-- The program changes without a change of what is listed. -/
theorem Tracks.reread {q : Program} (h : w.Tracks texts refs) (orderly : q.Orderly) (same : w.program.Rereads q)
    (inst : ∀ r ∈ refs, q.inst r = w.program.inst r) : Tracks { w with program := q } texts refs where
  orderly := orderly
  reading := h.reading.reread same
  uses u found := (h.uses u found).congr inst

theorem Tracked.nextBound (h : w.Tracked texts) : Tracked { w with program := w.program.nextBound } texts :=
  Tracks.reread h h.orderly.nextBound ⟨rfl, rfl, rfl, fun _ _ => ⟨[], (Instruction.extended_nil _).symm⟩⟩
    fun _ _ => rfl

theorem Tracked.made (h : w.Tracked texts) (i : Instruction) :
    Tracked { w with program := w.program.made i } texts := by
  have same : ∀ r ∈ w.program.allInsts, (w.program.made i).inst r = w.program.inst r :=
    fun r member => Program.inst_made_of_lt i (h.orderly.closed r member)
  exact Tracks.reread h (h.orderly.made i) (Program.rereads_of_same rfl same) same

def listed (w : Workspace) (place : Section) (r : InstRef) : Workspace where
  program := w.program.appended place r
  facts := { w.facts with uses := w.facts.uses.map fun u => u.record r (w.program.inst r) }

theorem Tracked.indexes_listed (h : w.Tracked texts) (isOpen : place.isOpen = true) (new : w.program.Unlisted place r) :
    ∀ u, (w.listed place r).facts.uses = some u →
      u.Indexes (w.listed place r).program.inst (w.listed place r).program.allInsts := by
  intro u found
  obtain ⟨u, known, rfl⟩ := Option.map_eq_some_iff.mp found
  exact Program.indexes_appended isOpen new.result ((h.uses u known).record new.new)

/-- Declarations and names are neither annotations nor features. -/
theorem Tracked.listed (h : w.Tracked texts) (plain : place = .typesValues ∨ place = .debugs2)
    (new : w.program.Unlisted place r) : (w.listed place r).Tracked texts := by
  have isOpen : place.isOpen = true := by rcases plain with rfl | rfl <;> rfl
  refine ⟨h.orderly.appended isOpen new.held new.new, ?_, h.indexes_listed isOpen new⟩
  have same : w.program.Rereads (w.program.appended place r) := by
    rcases plain with rfl | rfl <;> exact ⟨rfl, rfl, rfl, fun _ _ => ⟨[], (Instruction.extended_nil _).symm⟩⟩
  have reading := h.reading.reread same
  exact ⟨reading.annotations, reading.features⟩

/-- An annotation is analyzed after all others. -/
theorem Tracked.annotated (h : w.Tracked texts) (new : w.program.Unlisted .annotations r) {found : Option Annotations}
    (analyzed : ∀ a', found = some a' → ∃ a, w.facts.annotations = some a ∧ a.analyze w.program r = .ok a') :
    Tracked { program := (w.listed .annotations r).program
              facts := { (w.listed .annotations r).facts with annotations := found } } texts where
  orderly := h.orderly.appended rfl new.held new.new
  reading := by
    refine ⟨fun a' known => ?_, fun f known => ?_⟩
    · obtain ⟨a, before, step⟩ := analyzed a' known
      have read := h.reading.annotations a before
      change (w.program.module.annotations ++ [r]).foldlM (Annotations.analyze w.program) {} = .ok a'
      rw [List.foldlM_append]
      exact except_bind_ok_iff.mpr ⟨a, read, by rw [List.foldlM_cons, step]; rfl⟩
    · obtain ⟨capabilities, extensions⟩ := h.reading.features f known
      have same (r' : InstRef) :
          ∃ more, (w.program.appended .annotations r).inst r' = (w.program.inst r').extended more :=
        ⟨[], (Instruction.extended_nil _).symm⟩
      exact ⟨capabilities.extended fun r' _ => same r', extensions.extended fun r' _ => same r'⟩
  uses := h.indexes_listed rfl new

/-- A feature is declared by a new instruction without ids, which the uses are not told of. -/
theorem Tracked.declared (h : w.Tracked texts) {i : Instruction} (isOpen : place.isOpen = true)
    (noResult : i.resultId = 0) (noUses : i.useSites = []) {features : Option Features}
    (reading : { w.facts with features }.ReadFrom texts
      ((w.program.made i).appended place ⟨w.program.instructions.size⟩)) :
    Tracked { program := (w.program.made i).appended place ⟨w.program.instructions.size⟩
              facts := { w.facts with features } } texts where
  orderly := (h.orderly.made i).appended isOpen (Nat.lt_of_lt_of_eq (Nat.lt_succ_self _) (w.program.size_made i).symm)
    h.orderly.next
  reading := reading
  uses u found := by
    have inst := w.program.inst_made i
    refine Program.indexes_appended isOpen (.inl ?_) ?_
    · rw [inst, noResult]
      exact fun member => (Program.mem_resultIds.mp member).elim fun _ listed => listed.2.2 rfl
    · exact ((h.made i).uses u found).silent (by rw [inst, noResult]) (by rw [inst, noUses])

def longer (w : Workspace) (r : InstRef) (operand : Operand) : Workspace where
  program := w.program.withOperand r operand
  facts := { w.facts with
    uses := w.facts.uses.map fun u => u.recordUses r ((w.program.withOperand r operand).inst r) }

theorem Tracked.longer (h : w.Tracked texts) (operand : Operand) (member : r ∈ w.program.allInsts) :
    (w.longer r operand).Tracked texts where
  orderly := h.orderly.withOperand r operand
  reading := by
    have same : w.program.Rereads (w.program.withOperand r operand) :=
      ⟨rfl, rfl, rfl, fun s _ => w.program.inst_withOperand_extended r s operand⟩
    have reading := h.reading.reread same
    exact ⟨reading.annotations, reading.features⟩
  uses u found := by
    obtain ⟨u, known, rfl⟩ := Option.map_eq_some_iff.mp found
    refine (h.uses u known).recordUses h.orderly.distinct member (fun s _ other => ?_) ?_
    · exact w.program.inst_withOperand_of_ne operand other
    · obtain ⟨more, grown⟩ := w.program.inst_withOperand_extended r r operand
      rw [grown]
      rfl

end Workspace

end BlockTally
