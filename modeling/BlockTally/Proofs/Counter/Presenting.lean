import BlockTally.Proofs.Counter.Buffer
import BlockTally.Proofs.Workspace.Recall

/-! What the buffer variable comes with.

The variable is named and bound, the type of the buffer gets a name, and the features are declared that the counters
need. The name of the type and the features are not given again if they are there.
-/

set_option autoImplicit false

namespace BlockTally

namespace Program

variable {p q o : Program} {globals globals' names names' notes notes' : List InstRef} {wide : Bool}

structure Gains (p q : Program) (globals names notes : List InstRef) : Prop where
  typesValues : q.module.typesValues = p.module.typesValues ++ globals
  debugs2 : q.module.debugs2 = p.module.debugs2 ++ names
  annotations : q.module.annotations = p.module.annotations ++ notes
  others : ∀ place, place ≠ .typesValues → place ≠ .debugs2 → place ≠ .annotations →
    q.module.list place = p.module.list place

namespace Gains

theorem of_same (same : ∀ place, q.module.list place = p.module.list place) : p.Gains q [] [] [] where
  typesValues := (same .typesValues).trans (List.append_nil _).symm
  debugs2 := (same .debugs2).trans (List.append_nil _).symm
  annotations := (same .annotations).trans (List.append_nil _).symm
  others place _ _ _ := same place

theorem refl (p : Program) : p.Gains p [] [] [] :=
  of_same fun _ => rfl

theorem trans (first : p.Gains q globals names notes) (second : q.Gains o globals' names' notes') :
    p.Gains o (globals ++ globals') (names ++ names') (notes ++ notes') where
  typesValues := by rw [second.typesValues, first.typesValues, List.append_assoc]
  debugs2 := by rw [second.debugs2, first.debugs2, List.append_assoc]
  annotations := by rw [second.annotations, first.annotations, List.append_assoc]
  others place types names notes := (second.others place types names notes).trans (first.others place types names notes)

end Gains

def HasStorageBuffers (p : Program) : Prop :=
  p.Mentions .extensions .extension (.str storageBufferExtension) ∨
    Features.isPromoted p.module.version (.str storageBufferExtension) = true

structure Supports (p : Program) (wide : Bool) : Prop where
  extension : p.HasStorageBuffers
  integers : wide = true → p.Mentions .capabilities .capability (.int Capability.int64)
  atomics : wide = true → p.Mentions .capabilities .capability (.int Capability.int64Atomics)

theorem HasStorageBuffers.of_grows (h : p.HasStorageBuffers) (grows : p.Grows q) : q.HasStorageBuffers :=
  h.imp (·.of_grows grows) fun promoted => grows.module.version ▸ promoted

theorem Supports.of_grows (h : p.Supports wide) (grows : p.Grows q) : q.Supports wide :=
  ⟨h.extension.of_grows grows, fun needed => (h.integers needed).of_grows grows,
    fun needed => (h.atomics needed).of_grows grows⟩

theorem mentions_appended (p : Program) (place : Section) {i : Instruction} {v : Value} (value : i.value 0 = .ok v) :
    ((p.made i).appended place ⟨p.instructions.size⟩).Mentions place i.opcode v := by
  have inst := p.inst_made i
  refine ⟨⟨p.instructions.size⟩, ?_, p.holds_made i, congrArg _ inst, (congrArg (·.value 0) inst).trans value⟩
  have among : (⟨p.instructions.size⟩ : InstRef) ∈
      ((p.made i).module.setList place (p.module.list place ++ [⟨p.instructions.size⟩])).list place := by
    rw [Module.list_setList, if_pos rfl]
    exact List.mem_append_right _ (List.mem_singleton_self _)
  exact among

theorem grows_named (p : Program) (i : Instruction) :
    p.Grows ((p.made i).appended .debugs2 ⟨p.instructions.size⟩) :=
  (grows_made _ _).trans (grows_appended _ _ rfl)

theorem gains_named (p : Program) (i : Instruction) :
    p.Gains ((p.made i).appended .debugs2 ⟨p.instructions.size⟩) [] [⟨p.instructions.size⟩] [] where
  typesValues := (List.append_nil _).symm
  debugs2 := rfl
  annotations := (List.append_nil _).symm
  others place _ other _ := by cases place <;> first | rfl | exact absurd rfl other

theorem gains_noted (p : Program) (i : Instruction) :
    p.Gains ((p.made i).appended .annotations ⟨p.instructions.size⟩) [] [] [⟨p.instructions.size⟩] where
  typesValues := (List.append_nil _).symm
  debugs2 := (List.append_nil _).symm
  annotations := rfl
  others place _ _ other := by cases place <;> first | rfl | exact absurd rfl other

theorem gains_declared (p : Program) (i : Instruction) : p.Gains (p.declared i) [⟨p.instructions.size⟩] [] [] where
  typesValues := rfl
  debugs2 := (List.append_nil _).symm
  annotations := (List.append_nil _).symm
  others place other _ _ := by cases place <;> first | rfl | exact absurd rfl other

end Program

/-- What is known to be declared is declared. -/
theorem Features.Reads.hasExtension_iff {f : Features} {p : Program} (h : f.Reads ∅ p) (filed : p.Filed) :
    f.hasExtension p (.str storageBufferExtension) = true ↔ p.HasStorageBuffers := by
  rw [Features.hasExtension, Bool.or_eq_true, decide_eq_true_eq, h.extensions.mem_iff]
  refine or_congr_left (exists_congr fun r => and_congr_right fun member => ?_)
  exact (and_iff_right (filed .extensions r member)).symm

theorem Features.Reads.hasCapability_iff {f : Features} {p : Program} (h : f.Reads ∅ p) (filed : p.Filed)
    (capability : Int) : f.hasCapability (.int capability) = true ↔
      p.Mentions .capabilities .capability (.int capability) := by
  rw [Features.hasCapability, decide_eq_true_eq, h.capabilities.mem_iff]
  refine exists_congr fun r => and_congr_right fun member => ?_
  exact (and_iff_right (filed .capabilities r member)).symm

namespace Workspace

open Account Contract

variable {w : Workspace}

/-! ### Features -/

theorem then_needFeatures (h : w.Filed) :
    Then needFeatures w fun f w' => w'.program = w.program ∧ w'.Filed ∧ f.Reads ∅ w.program := by
  refine .mono finds_needFeatures.with_move (fun f w' held => ?_) fun _ _ _ => True.intro
  obtain ⟨looked, -, known⟩ := held
  have program := (looks_of_finds looked).1
  have filed := (h.steps (moves_of_walk (A := steps ∅) (fun _ find => .single find.step) looked)).1
  exact ⟨program, filed, program ▸ filed.features f known⟩

theorem recalling_needFeatures : Recalling needFeatures w fun f w' => w'.program = w.program ∧ w.program.Filed ∧
    f.Reads ∅ w.program := by
  refine ((Recalling.of_asides (asides_of_finds finds_needFeatures)).and fun settled => ?_).mono
    fun _ _ _ held => held.2
  exact .mono (then_needFeatures settled.filed) (fun _ _ held => ⟨held.1, settled.filed.lists, held.2.2⟩)
    fun _ _ _ => True.intro

/-- A module with the extension is left as it is, and another one gets it. -/
theorem recalling_provideExtension : Recalling provideExtension w fun _ w' => w'.program.HasStorageBuffers ∧
    (w.program.HasStorageBuffers → w'.program = w.program) := by
  unfold provideExtension
  refine recalling_needFeatures.bind fun f w₁ _ held => .bind_get ?_
  obtain ⟨program, filed, reads⟩ := held
  have known := reads.hasExtension_iff filed
  rw [← program] at known
  split
  next present => exact .pure ⟨known.mp present, fun _ => program⟩
  next absent =>
    refine ((Recalling.of_asides (asides_addExtension _)).and fun _ => ?_).mono fun _ _ _ held => held.2
    exact ⟨.inl (w₁.program.mentions_appended .extensions rfl), fun has => absurd (known.mpr (program ▸ has)) absent⟩

theorem recalling_provideCapability (capability : Int) : Recalling (provideCapability capability) w fun _ w' =>
    w'.program.Mentions .capabilities .capability (.int capability) ∧
      (w.program.Mentions .capabilities .capability (.int capability) → w'.program = w.program) := by
  unfold provideCapability
  refine recalling_needFeatures.bind fun f w₁ _ held => ?_
  obtain ⟨program, filed, reads⟩ := held
  have known := reads.hasCapability_iff filed capability
  split
  next present =>
    have has := known.mp present
    exact .pure ⟨program ▸ has, fun _ => program⟩
  next absent =>
    have spelled : (asides ∅ Set.univ).Keeps (addCapability (.int capability)) w₁ fun _ _ => True :=
      asides_addCapability fun _ read _ => .inl (congrArg Value.int (Except.ok.inj read))
    refine ((Recalling.of_asides spelled).and fun _ => ?_).mono fun _ _ _ held => held.2
    exact ⟨w₁.program.mentions_appended .capabilities rfl, fun has => absurd (known.mpr has) absent⟩

/-- After the features for wide counters the module supports them. -/
theorem recalling_provideWideCounters (extension : w.program.HasStorageBuffers) :
    Recalling provideWideCounters w fun _ w' => w'.program.Supports true ∧
      (w.program.Supports true → w'.program = w.program) := by
  unfold provideWideCounters
  refine (recalling_provideCapability Capability.int64).bind fun _ w₁ recalls₁ first => ?_
  refine (recalling_provideCapability Capability.int64Atomics).mono fun _ w₂ recalls₂ second => ⟨?_, fun supports => ?_⟩
  · exact ⟨(extension.of_grows recalls₁.grows).of_grows recalls₂.grows, fun _ => first.1.of_grows recalls₂.grows,
      fun _ => second.1⟩
  · have same := first.2 (supports.integers rfl)
    exact (second.2 (same ▸ supports.atomics rfl)).trans same

/-! ### Names and interfaces -/

theorem anyNames_ok {p : Program} {target : Value} {refs : List InstRef} {named : Bool}
    (read : anyNames p target refs = .ok named) :
    named = true ↔ ∃ r ∈ refs, (p.inst r).opcode = .name ∧ (p.inst r).value 0 = .ok target := by
  -- By induction on the instructions: the search ends at the first name of the target.
  induction refs with
  | nil =>
    obtain rfl := Except.ok.inj read
    simp
  | cons r rest ih =>
    simp only [List.mem_cons, or_and_right, exists_or, exists_eq_left]
    unfold anyNames at read
    split at read
    next opcode =>
      obtain ⟨v, value, read⟩ := except_bind_ok_iff.mp read
      simp only [opcode, value, true_and, Except.ok.injEq]
      split at read
      next same =>
        obtain rfl := Except.ok.inj read
        simp [same]
      next other =>
        rw [ih read]
        simp [other]
    next opcode =>
      rw [ih read]
      simp [opcode]

/-- The variable is named, and its type is named if it was not before. -/
theorem recalling_addBufferNames (bufferType : Id) (id : Value) :
    Recalling (addBufferNames (.int bufferType) id) w fun _ w' => w.program.ReadsAlike w'.program ∧
      w'.program.Mentions .debugs2 .name (.int bufferType) ∧ ∃ names, w.program.Gains w'.program [] names [] ∧
        (w.program.Mentions .debugs2 .name (.int bufferType) → ∃ name, names = [name]) := by
  refine ((Recalling.of_asides (asides_addBufferNames (Set.mem_univ _) (Set.mem_univ _))).and fun settled => ?_).mono
    fun _ _ _ held => ⟨held.1.1, held.2⟩
  unfold addBufferNames
  refine Change.After.bind_get (Then.check fun named read => ?_)
  have known : named = true ↔ w.program.Mentions .debugs2 .name (.int bufferType) := by
    rw [anyNames_ok read]
    exact exists_congr fun r => and_congr_right fun member =>
      (and_iff_right (settled.filed.lists .debugs2 r member)).symm
  split
  next present =>
    refine Change.After.bind (after_newInst (after_listed ⟨?_, _, w.program.gains_named _, fun _ => ⟨_, rfl⟩⟩))
    exact (known.mp present).of_grows (Program.grows_named _ _)
  next absent =>
    refine Change.After.bind (after_newInst (Change.After.bind (after_listed ?_)))
    refine Change.After.bind (after_newInst (Change.After.bind (after_listed ?_)))
    refine Change.After.bind (after_newInst (after_listed ⟨?_, _, ((w.program.gains_named _).trans
      (Program.gains_named _ _)).trans (Program.gains_named _ _), fun before => absurd (known.mpr before) absent⟩))
    have first := w.program.mentions_appended .debugs2
      (i := { opcode := .name, operands := [.ofId (.int bufferType), .string (.str CounterBuffer.typeName)] }) rfl
    exact (first.of_grows (Program.grows_named _ _)).of_grows (Program.grows_named _ _)

/-- The module itself is left alone, whatever becomes of its instructions. -/
def frames : Contract Workspace where
  moves w w' := w'.program.module = w.program.module
  exhausted _ := True
  refl _ := rfl
  trans first second := second.trans first

/-- The sections of the module stay as they are. -/
theorem recalling_extendInterfaces (id : Id) : Recalling (extendInterfaces id) w fun _ w' =>
    w'.program.module = w.program.module := by
  have recalled : Recalling (extendInterfaces id) w _ := .of_asides (asides_extendInterfaces (Set.mem_univ _))
  refine (recalled.and fun _ => ?_).mono fun _ _ _ held => held.2
  have framed : frames.Keeps (extendInterfaces id) w fun _ _ => True := by
    unfold extendInterfaces
    refine Keeps.bind_get ?_
    dsimp only
    split
    · exact Keeps.forM fun r _ w₁ _ => after_longer ⟨rfl, True.intro⟩
    · exact Keeps.pure True.intro
  exact .mono framed (fun _ _ held => held.1) fun _ _ _ => True.intro

theorem recalling_needUses : Recalling needUses w fun _ w' => w'.program = w.program := by
  have looked : (asides ∅ Set.univ).Keeps needUses w fun _ w' => w'.program = w.program :=
    asides_of_finds (finds_needUses.with_move.mono fun _ _ _ held => (looks_of_finds held.1).1)
  exact (Recalling.of_asides looked).mono fun _ _ _ held => held.2

/-! ### The variable -/

theorem steps_declareBufferVariable (pointerType : Id) :
    (steps ∅).Keeps (declareBufferVariable pointerType) w fun _ _ => True :=
  Change.After.bind (after_takeId (fun _ => ⟨w, .refl, .refl⟩) fun free =>
    Change.After.bind (after_newInst (Change.After.bind (after_listed
      (Change.After.pure ⟨.single (.declare free rfl), True.intro⟩)))))

/-- A variable is declared under the next id. -/
theorem recalling_declareBufferVariable (pointerType : Id) : Recalling (declareBufferVariable pointerType) w
    fun id w' => id = w.program.module.idBound ∧ 0 < id ∧ w'.program.Carries id [] ∧
      w'.program = w.program.declared (bufferDeclaration pointerType id) := by
  refine .of_then (steps_declareBufferVariable pointerType) fun h => ?_
  unfold declareBufferVariable
  refine Change.After.bind (after_takeId (fun _ => True.intro) fun free => ?_)
  refine Change.After.bind (after_newInst (Change.After.bind (after_addGlobal fun uses => .pure ?_)))
  let i := bufferDeclaration pointerType w.program.module.idBound
  obtain ⟨adds, held⟩ := h.interned.bounded.held.declared i
  have inst := w.program.inst_declared i
  have declared : w.program.Declared (w.program.declared i) ⟨w.program.instructions.size⟩ [] :=
    ⟨adds, held, rfl, congrArg _ inst, Int.ne_of_gt h.positive, fun constant => (nomatch inst ▸ constant), nofun⟩
  obtain ⟨types, constants⟩ := declared.variable h.interned.bounded (congrArg _ inst)
  refine ⟨⟨declared.bounded h.interned.bounded, ⟨fun a known => ?_, fun t known => ?_, fun c known => ?_⟩⟩,
    Request.keeps_of_tables types constants, rfl, h.positive,
    declared.carries h.interned.bounded (congrArg _ inst), rfl⟩
  · exact (adds.ofProgram_eq rfl).trans (h.interned.current.annotations a known)
  · obtain ⟨t', read, agrees⟩ := h.interned.current.types t known
    exact ⟨t', types.trans read, agrees⟩
  · obtain ⟨c', table, agrees⟩ := h.interned.current.constants c known
    exact ⟨c', constants c' table, agrees⟩

end Workspace

end BlockTally
