import BlockTally.Proofs.Counter.Outcome

/-! Increments and phi instructions.

In a block that starts with its phi instructions nothing but variables, phi instructions and line markers may stand in
front of one. The scan for the insertion point knows of the first two, and stops at a line marker. So an increment
comes in front of a phi instruction just where a line marker does.
-/

set_option autoImplicit false

namespace BlockTally

abbrev Opcode.line : Opcode := ⟨8⟩
abbrev Opcode.noLine : Opcode := ⟨317⟩

abbrev leadIns : List Opcode := [.var, .phi, .line, .noLine]

namespace Program

/-- In front of the phi instructions of a block stand only instructions with the given opcodes. -/
def PhisBehind (p : Program) (allowed : List Opcode) (b : BlockRef) : Prop :=
  (p.body b).Pairwise fun early late => (p.inst late).opcode = .phi → (p.inst early).opcode ∈ allowed

instance (p : Program) (allowed : List Opcode) (b : BlockRef) : Decidable (p.PhisBehind allowed b) :=
  inferInstanceAs (Decidable (List.Pairwise _ _))

variable {p q : Program} {f : FuncRef} {b : BlockRef} {allowed : List Opcode}

/-- Behind a front of what is allowed, the first thing that is not keeps all phi instructions out. -/
theorem pairwise_append_iff {front back : List InstRef} (leads : ∀ r ∈ front, (p.inst r).opcode ∈ allowed)
    (stop : ∀ r, back.head? = some r → (p.inst r).opcode ∉ allowed) (phi : Opcode.phi ∈ allowed) :
    ((front ++ back).Pairwise fun early late => (p.inst late).opcode = .phi → (p.inst early).opcode ∈ allowed) ↔
      ∀ r ∈ back, (p.inst r).opcode ≠ .phi := by
  rw [List.pairwise_append]
  constructor
  · rintro ⟨-, behind, -⟩ r member isPhi
    cases back with
    | nil => cases member
    | cons first rest =>
      have outside := stop first rfl
      rcases List.mem_cons.mp member with rfl | later
      · exact outside (isPhi ▸ phi)
      · exact outside ((List.pairwise_cons.mp behind).1 r later isPhi)
  · intro none
    refine ⟨?_, ?_, fun s _ r member isPhi => absurd isPhi (none r member)⟩
    · exact List.pairwise_iff_forall_sublist.mpr fun pair _ => leads _ (pair.subset (List.mem_cons_self ..))
    · refine List.pairwise_iff_forall_sublist.mpr fun pair isPhi => absurd isPhi (none _ (pair.subset ?_))
      exact List.mem_cons_of_mem _ (List.mem_cons_self ..)

/-- Up to the insertion point there are variables and phi instructions. -/
theorem opcode_of_mem_take {r : InstRef} (member : r ∈ (p.body b).take (p.insertionPoint b)) :
    (p.inst r).opcode ∈ [Opcode.var, .phi] := by
  obtain ⟨vars, phis, front, lead⟩ := p.exists_leadIn b
  rw [← front] at member
  rcases List.mem_append.mp member with var | phi
  · exact lead.onlyVars r var ▸ List.mem_cons_self ..
  · exact lead.onlyPhis r phi ▸ List.mem_cons_of_mem _ (List.mem_cons_self ..)

/-- At the insertion point of a block there is neither a variable nor a phi instruction. -/
theorem WellFormedBlock.opcode_of_head_drop (h : p.WellFormedBlock f b) {r : InstRef}
    (head : ((p.body b).drop (p.insertionPoint b)).head? = some r) : (p.inst r).opcode ∉ [Opcode.var, .phi] := by
  obtain ⟨vars, phis, -, lead⟩ := p.exists_leadIn b
  have room : p.variableRoom f b ≤ p.insertionPoint b := by
    unfold variableRoom
    split
    · exact p.variablesEnd_le_insertionPoint b
    · exact Nat.zero_le _
  have behind : r ∈ (p.body b).drop (p.variableRoom f b) := by
    have member := List.mem_of_head? head
    rw [← Nat.add_sub_cancel' room, ← List.drop_drop] at member
    exact List.mem_of_mem_drop member
  simp only [List.mem_cons, List.not_mem_nil, or_false, not_or]
  exact ⟨h.varsLead r behind, lead.noPhi r head⟩

theorem WellFormedBlock.phisBehind_iff (h : p.WellFormedBlock f b) : p.PhisBehind [.var, .phi] b ↔
    ∀ r ∈ (p.body b).drop (p.insertionPoint b), (p.inst r).opcode ≠ .phi := by
  rw [← pairwise_append_iff (fun r => opcode_of_mem_take) (fun r => h.opcode_of_head_drop) (by decide)]
  rw [List.take_append_drop]
  rfl

end Program

open Program

/-- No part of an increment may stand in front of a phi instruction. -/
theorem Increment.Form.not_leadIn {o : Operands} {atomic : Bool} {insts : List Instruction} (h : Form o atomic insts)
    {i : Instruction} (member : i ∈ insts) : i.opcode ∉ leadIns := by
  cases h with
  | atomic =>
    simp only [List.mem_cons, List.not_mem_nil, or_false] at member
    rcases member with rfl | rfl <;> simp [address, atomicAdd]
  | plain =>
    simp only [loadAddStore, List.mem_cons, List.not_mem_nil, or_false] at member
    rcases member with rfl | rfl | rfl | rfl <;> simp [address]

/-- With an increment in it, a block has its phi instructions in front if they were not behind anything else before. -/
theorem Program.Counted.phisBehind_iff {p q : Program} {atomic : Bool} {f : FuncRef} {b : BlockRef}
    {refs : List InstRef} {o : Increment.Operands} (h : p.Counted q atomic b refs o) (formed : p.WellFormedBlock f b)
    (opcode : ∀ r ∈ p.body b, (q.inst r).opcode = (p.inst r).opcode) :
    q.PhisBehind leadIns b ↔ p.PhisBehind [.var, .phi] b := by
  have own {r : InstRef} (member : r ∈ refs) : (q.inst r).opcode ∉ leadIns :=
    h.form.not_leadIn (List.mem_map_of_mem member)
  have leads : ∀ r ∈ (p.body b).take (p.insertionPoint b), (q.inst r).opcode ∈ leadIns := fun r member => by
    rw [opcode r (List.mem_of_mem_take member)]
    exact List.mem_append_left [Opcode.line, .noLine] (opcode_of_mem_take member)
  -- An increment is not empty and begins with no lead-in, so what leads the block ends in front of it.
  have stop : ∀ r, (refs ++ (p.body b).drop (p.insertionPoint b)).head? = some r → (q.inst r).opcode ∉ leadIns := by
    intro r head
    cases split : refs with
    | nil => exact absurd (congrArg (List.map q.inst) split) h.form.ne_nil
    | cons first rest =>
      rw [split] at head
      obtain rfl := Option.some.inj head
      exact own (split ▸ List.mem_cons_self ..)
  have body : q.body b = (p.body b).take (p.insertionPoint b) ++ (refs ++ (p.body b).drop (p.insertionPoint b)) := by
    rw [← List.append_assoc]
    exact congrArg Block.body h.block
  rw [PhisBehind, body, pairwise_append_iff leads stop (by decide), formed.phisBehind_iff, List.forall_mem_append]
  constructor
  · rintro ⟨-, behind⟩ r member
    rw [← opcode r (List.mem_of_mem_drop member)]
    exact behind r member
  · refine fun behind => ⟨fun r member isPhi => own member (isPhi ▸ by decide), fun r member => ?_⟩
    rw [opcode r (List.mem_of_mem_drop member)]
    exact behind r member

namespace Run

open Change

variable {σ : Type} {r r' : Run σ}

/-- Where all phi instructions lead their blocks, a run that ends leaves it so except in the blocks that it counted and
in which a line marker stands in front of a phi instruction. -/
theorem phisBehind_iff_of_run {settings : Settings} {hooks : Hooks σ} {status : Status} (quiet : hooks.Quiet)
    (valid : r.program.validate = .ok ()) (closed : r.program.Closed)
    (lead : ∀ b ∈ r.program.listedBlocks, r.program.PhisBehind leadIns b)
    (ran : run settings hooks r = .ok status r') : ∀ b ∈ r'.program.listedBlocks,
      (r'.program.PhisBehind leadIns b ↔ (r.program.Traced b → r.program.PhisBehind [.var, .phi] b)) := by
  have formed := Program.validate_ok_iff.mp valid
  obtain ⟨tour, traces, -, progress⟩ := (after_run settings quiet formed closed).of_ok ran
  intro b listed
  rw [progress.grows.listedBlocks] at listed
  have opcode : ∀ i ∈ r.program.body b, (r'.program.inst i).opcode = (r.program.inst i).opcode := fun i member =>
    progress.grows.opcode (holds_of_listed closed listed (List.mem_cons_of_mem _ member))
  by_cases traced : r.program.Traced b
  · obtain ⟨_, refs, _, -, counted, -⟩ := progress.counted b (traces.mem_iff.mpr traced)
    obtain ⟨f, reached, member⟩ := traced
    rw [counted.phisBehind_iff ((formed.functions f reached.mem).2 b member) opcode]
    exact ⟨fun held _ => held, fun held => held ⟨f, reached, member⟩⟩
  · have body : r'.program.body b = r.program.body b :=
      congrArg Block.body (progress.others b fun member => traced (traces.mem_iff.mp member))
    refine iff_of_true ?_ fun here => absurd here traced
    unfold PhisBehind
    rw [body]
    refine (lead b listed).imp_of_mem fun {early late} first last held isPhi => ?_
    rw [opcode early first]
    exact held ((opcode late last).symm.trans isPhi)

/-- A run on two blocks that start with a phi instruction, the second one with the source line in front of it. -/
def merging : Run Unit where
  job := { workspace := { program := {
    instructions := ⟨#[
      { instruction := { opcode := .typeVoid, resultId := 1 } },
      { instruction := { opcode := .typeFunction, resultId := 2, operands := [.ofId (.int 1)] } },
      { instruction := { opcode := .typeInt, resultId := 3, operands := [.literal (.int 32), .literal (.int 0)] } },
      { instruction := { opcode := .constant, typeId := 3, resultId := 4, operands := [.literal (.int 7)] } },
      { instruction := { opcode := ⟨7⟩, resultId := 5, operands := [.string (.str "main.comp")] } },
      { instruction :=
          { opcode := .entryPoint, operands := [.literal (.int 5), .ofId (.int 6), .string (.str "main")] } },
      { instruction :=
          { opcode := .function, typeId := 1, resultId := 6, operands := [.literal (.int 0), .ofId (.int 2)] } },
      { instruction := { opcode := .label, resultId := 7 } },
      { instruction := { opcode := .branch, operands := [.ofId (.int 8)] }, block := some ⟨0⟩ },
      { instruction := { opcode := .label, resultId := 8 } },
      { instruction := { opcode := .phi, typeId := 3, resultId := 10, operands := [.ofId (.int 4), .ofId (.int 7)] }
        block := some ⟨1⟩ },
      { instruction := { opcode := .branch, operands := [.ofId (.int 9)] }, block := some ⟨1⟩ },
      { instruction := { opcode := .label, resultId := 9 } },
      { instruction :=
          { opcode := .line, operands := [.ofId (.int 5), .literal (.int 3), .literal (.int 1)] }
        block := some ⟨2⟩ },
      { instruction := { opcode := .phi, typeId := 3, resultId := 11, operands := [.ofId (.int 10), .ofId (.int 8)] }
        block := some ⟨2⟩ },
      { instruction := { opcode := .ret }, block := some ⟨2⟩ },
      { instruction := { opcode := .functionEnd } }]⟩
    blocks := ⟨#[
      { label := ⟨7⟩, function := some ⟨0⟩, body := [⟨8⟩] },
      { label := ⟨9⟩, function := some ⟨0⟩, body := [⟨10⟩, ⟨11⟩] },
      { label := ⟨12⟩, function := some ⟨0⟩, body := [⟨13⟩, ⟨14⟩, ⟨15⟩] }]⟩
    functions := ⟨#[{ definition := ⟨6⟩, blocks := [⟨0⟩, ⟨1⟩, ⟨2⟩], endMark := ⟨16⟩, added := true }]⟩
    module := {
      idBound := 12
      entryPoints := [⟨5⟩]
      debugs1 := [⟨4⟩]
      typesValues := [⟨0⟩, ⟨1⟩, ⟨2⟩, ⟨3⟩]
      functions := [⟨0⟩] } } } }
  host := ()

theorem phisBehind_iff_of_run_merging :
    (finalState (run {} {} merging)).program.PhisBehind leadIns ⟨1⟩ ∧
      ¬(merging.program.Traced ⟨2⟩ → merging.program.PhisBehind [.var, .phi] ⟨2⟩) := by
  have valid : merging.program.validate = .ok () := by decide +kernel
  have lead : ∀ b ∈ merging.program.listedBlocks, merging.program.PhisBehind leadIns b := by decide +kernel
  have ran := eq_ok_of_answer (by decide +kernel : answer? (run {} {} merging) = some .changed)
  have outcome := phisBehind_iff_of_run Hooks.quiet_default valid (by decide) lead ran
  constructor
  · exact (outcome ⟨1⟩ (by decide +kernel)).mpr fun _ => by decide +kernel
  · intro held
    exact absurd ((outcome ⟨2⟩ (by decide +kernel)).mpr held) (by decide +kernel)

/-- The increment of the last block comes in front of its source line, and so in front of its phi instruction. -/
theorem not_phisBehind_of_run : merging.program.validate = .ok () ∧
    (∀ b ∈ merging.program.listedBlocks, merging.program.PhisBehind leadIns b) ∧
    answer? (run {} {} merging) = some .changed ∧
    ¬∀ b ∈ (finalState (run {} {} merging)).program.listedBlocks,
      (finalState (run {} {} merging)).program.PhisBehind leadIns b := by
  refine ⟨by decide +kernel, by decide +kernel, by decide +kernel, fun all => ?_⟩
  exact absurd (all ⟨2⟩ (by decide +kernel)) (by decide +kernel)

end Run

end BlockTally
