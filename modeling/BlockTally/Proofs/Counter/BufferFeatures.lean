import BlockTally.Proofs.Counter.Presenting
import BlockTally.Proofs.Counter.Turns

/-! What a buffer demands of its module.

With the buffer variable come the features that the version and the width of the counters demand and that the module
does not declare, and from version 1.4 on an operand of every entry point.
-/

set_option autoImplicit false

namespace BlockTally

open Change Account Contract

namespace Program

def Gets (p q : Program) (place : Section) (added : List Instruction) : Prop :=
  ∃ refs, q.module.list place = p.module.list place ++ refs ∧ (∀ r ∈ refs, ¬p.Holds r ∧ q.Holds r) ∧
    refs.map q.inst = added

def vars (p : Program) : List InstRef :=
  p.module.typesValues.filter fun r => (p.inst r).opcode = .var

/-- Instructions stay as they are, and there are no new features, entry points or variables. -/
structure Rests (p q : Program) : Prop where
  version : q.module.version = p.module.version
  capabilities : q.module.capabilities = p.module.capabilities
  extensions : q.module.extensions = p.module.extensions
  entryPoints : q.module.entryPoints = p.module.entryPoints
  holds : ∀ r, p.Holds r → q.Holds r
  inst : ∀ r, p.Holds r → q.inst r = p.inst r
  vars : q.vars = p.vars

/-- A variable is declared under the id. Beside it the features are declared, and the id is the last operand of the
interfaces; other instructions stay as they are. -/
structure Supplied (p q : Program) (v : Id) (extensions capabilities : List Instruction) (interfaces : List InstRef) :
    Prop where
  version : q.module.version = p.module.version
  extensions : p.Gets q .extensions extensions
  capabilities : p.Gets q .capabilities capabilities
  entryPoints : q.module.entryPoints = p.module.entryPoints
  holds : ∀ r, p.Holds r → q.Holds r
  inst : ∀ r, p.Holds r →
    q.inst r = if r ∈ interfaces then (p.inst r).extended [.ofId (.int v)] else p.inst r
  vars : ∃ r, ¬p.Holds r ∧ q.Holds r ∧ q.vars = p.vars ++ [r] ∧ (q.inst r).resultId = v

instance (p : Program) (place : Section) (opcode : Opcode) (v : Value) : Decidable (p.Mentions place opcode v) :=
  inferInstanceAs (Decidable (∃ r ∈ p.module.list place, _))

def extensionDeclaration (text : String) : Instruction where
  opcode := .extension
  operands := [.string (.str text)]

def capabilityDeclaration (capability : Int) : Instruction where
  opcode := .capability
  operands := [⟨.capability, .int capability⟩]

def newExtensions (p : Program) : List Instruction :=
  if p.module.version < Version.v1_3 ∧ ¬p.Mentions .extensions .extension (.str storageBufferExtension) then
    [extensionDeclaration storageBufferExtension]
  else []

def newCapability (p : Program) (capability : Int) : List Instruction :=
  if p.Mentions .capabilities .capability (.int capability) then [] else [capabilityDeclaration capability]

def newCapabilities (p : Program) (wide : Bool) : List Instruction :=
  if wide then p.newCapability Capability.int64 ++ p.newCapability Capability.int64Atomics else []

/-- From version 1.4 on global variables are listed by all entry points. -/
def newInterfaces (p : Program) : List InstRef :=
  if Version.v1_4 ≤ p.module.version then p.module.entryPoints else []

/-- The second program is the first one with a buffer variable and exactly what it demands. -/
def Provisioned (p : Program) (wide : Bool) (v : Id) (q : Program) : Prop :=
  p.Supplied q v p.newExtensions (p.newCapabilities wide) p.newInterfaces

variable {p q o : Program} {place : Section} {added extensions capabilities : List Instruction} {v : Id}
  {interfaces : List InstRef} {r : InstRef}

/-! ### New instructions of a section -/

theorem Gets.of_same (same : q.module.list place = p.module.list place) : p.Gets q place [] :=
  ⟨[], same.trans (List.append_nil _).symm, nofun, rfl⟩

/-- New instructions stay as they are. -/
theorem Gets.later (h : p.Gets q place added) (same : o.module.list place = q.module.list place)
    (holds : ∀ r, q.Holds r → o.Holds r) (inst : ∀ r, ¬p.Holds r → q.Holds r → o.inst r = q.inst r) :
    p.Gets o place added := by
  obtain ⟨refs, listed, new, rfl⟩ := h
  refine ⟨refs, same.trans listed, fun r member => ⟨(new r member).1, holds r (new r member).2⟩, ?_⟩
  exact List.map_congr_left fun r member => inst r (new r member).1 (new r member).2

theorem Gets.appended (h : p.Gets q place added) (old : ∀ r, p.Holds r → q.Holds r) (i : Instruction) :
    p.Gets ((q.made i).appended place ⟨q.instructions.size⟩) place (added ++ [i]) := by
  obtain ⟨refs, listed, new, rfl⟩ := h
  have longer : ((q.made i).appended place ⟨q.instructions.size⟩).module.list place =
      q.module.list place ++ [⟨q.instructions.size⟩] := by
    rw [appended, Module.list_setList, if_pos rfl]
    rfl
  refine ⟨refs ++ [⟨q.instructions.size⟩], ?_, fun r member => ?_, ?_⟩
  · rw [longer, listed, List.append_assoc]
  · rcases List.mem_append.mp member with before | last
    · exact ⟨(new r before).1, (q.grows_made i).holds (new r before).2⟩
    · obtain rfl := List.mem_singleton.mp last
      exact ⟨fun held => Nat.lt_irrefl _ (old _ held), q.holds_made i⟩
  · rw [List.map_append]
    refine congrArg₂ _ (List.map_congr_left fun r before => inst_made_of_lt i (new r before).2) ?_
    exact congrArg (fun i => [i]) (q.inst_made i)

/-- What a section names is named by its old instructions or by its new ones. -/
theorem Gets.mentions (h : p.Gets q place added) (opcode : Opcode) (value : Value) (filed : p.Filed)
    (holds : ∀ r, p.Holds r → q.Holds r) (inst : ∀ r, p.Holds r → q.inst r = p.inst r) :
    q.Mentions place opcode value ↔
      p.Mentions place opcode value ∨ ∃ i ∈ added, i.opcode = opcode ∧ i.value 0 = .ok value := by
  obtain ⟨refs, listed, new, rfl⟩ := h
  constructor
  · rintro ⟨r, member, held, same, named⟩
    rcases List.mem_append.mp (listed ▸ member) with old | last
    · have before := filed place r old
      rw [inst r before] at same named
      exact .inl ⟨r, old, before, same, named⟩
    · exact .inr ⟨_, List.mem_map_of_mem last, same, named⟩
  · rintro (⟨r, member, held, same, named⟩ | ⟨_, member, same, named⟩)
    · refine ⟨r, listed ▸ List.mem_append_left _ member, holds r held, ?_⟩
      rw [inst r held]
      exact ⟨same, named⟩
    · obtain ⟨r, last, rfl⟩ := List.mem_map.mp member
      exact ⟨r, listed ▸ List.mem_append_right _ last, (new r last).2, same, named⟩

/-! ### Programs that rest -/

theorem Rests.refl (p : Program) : p.Rests p :=
  ⟨rfl, rfl, rfl, rfl, fun _ => id, fun _ _ => rfl, rfl⟩

theorem Rests.trans (first : p.Rests q) (second : q.Rests o) : p.Rests o where
  version := second.version.trans first.version
  capabilities := second.capabilities.trans first.capabilities
  extensions := second.extensions.trans first.extensions
  entryPoints := second.entryPoints.trans first.entryPoints
  holds r held := second.holds r (first.holds r held)
  inst r held := (second.inst r (first.holds r held)).trans (first.inst r held)
  vars := second.vars.trans first.vars

theorem vars_congr (typesValues : q.module.typesValues = p.module.typesValues)
    (inst : ∀ r ∈ p.module.typesValues, q.inst r = p.inst r) : q.vars = p.vars := by
  unfold vars
  rw [typesValues]
  exact List.filter_congr fun r member => by rw [inst r member]

theorem Filed.rests_made (h : p.Filed) (i : Instruction) : p.Rests (p.made i) where
  version := rfl
  capabilities := rfl
  extensions := rfl
  entryPoints := rfl
  holds _ := (p.grows_made i).holds
  inst _ := inst_made_of_lt i
  vars := vars_congr rfl fun r member => inst_made_of_lt i (h .typesValues r member)

theorem rests_named (p : Program) (r : InstRef) : p.Rests (p.appended .debugs2 r) :=
  ⟨rfl, rfl, rfl, rfl, fun _ => id, fun _ _ => rfl, rfl⟩

theorem rests_noted (p : Program) (r : InstRef) : p.Rests (p.appended .annotations r) :=
  ⟨rfl, rfl, rfl, rfl, fun _ => id, fun _ _ => rfl, rfl⟩

theorem rests_inserted (p : Program) (b : BlockRef) (gap : Nat) (refs : List InstRef) :
    p.Rests (p.inserted b gap refs) := by
  have module := @module_inserted p b gap refs
  exact {
    version := congrArg Module.version module
    capabilities := congrArg Module.capabilities module
    extensions := congrArg Module.extensions module
    entryPoints := congrArg Module.entryPoints module
    holds := fun r held => Nat.lt_of_lt_of_eq held size_inserted.symm
    inst := fun r _ => inst_inserted r
    vars := vars_congr (congrArg Module.typesValues module) fun r _ => inst_inserted r }

/-- A declaration is listed behind the old ones. -/
theorem Filed.vars_declared (h : p.Filed) (i : Instruction) : (p.declared i).vars =
    p.vars ++ if i.opcode = .var then [⟨p.instructions.size⟩] else [] := by
  have typesValues : (p.declared i).module.typesValues = p.module.typesValues ++ [⟨p.instructions.size⟩] := rfl
  have own : (p.declared i).inst ⟨p.instructions.size⟩ = i := p.inst_declared i
  unfold vars
  rw [typesValues, List.filter_append]
  refine congrArg₂ _ (List.filter_congr fun r member => ?_) ?_
  · rw [show (p.declared i).inst r = p.inst r from p.nextBound.inst_made_of_lt i (h .typesValues r member)]
  · by_cases var : i.opcode = .var <;> simp [own, var]

theorem Filed.rests_declared (h : p.Filed) {i : Instruction} (plain : i.opcode ≠ .var) : p.Rests (p.declared i) where
  version := rfl
  capabilities := rfl
  extensions := rfl
  entryPoints := rfl
  holds _ := (p.nextBound.grows_made i).holds
  inst _ held := p.nextBound.inst_made_of_lt i held
  vars := by rw [h.vars_declared, if_neg plain, List.append_nil]

/-! ### What is supplied -/

namespace Supplied

/-- The variable and the interfaces stay as they are, whatever becomes of the features. -/
theorem later {extensions' capabilities' : List Instruction} (h : p.Supplied q v extensions capabilities interfaces)
    (version : o.module.version = q.module.version) (entryPoints : o.module.entryPoints = q.module.entryPoints)
    (holds : ∀ r, q.Holds r → o.Holds r) (inst : ∀ r, q.Holds r → o.inst r = q.inst r)
    (vars : o.vars = q.vars) (first : p.Gets o .extensions extensions')
    (second : p.Gets o .capabilities capabilities') : p.Supplied o v extensions' capabilities' interfaces where
  version := version.trans h.version
  extensions := first
  capabilities := second
  entryPoints := entryPoints.trans h.entryPoints
  holds r held := holds r (h.holds r held)
  inst r held := (inst r (h.holds r held)).trans (h.inst r held)
  vars := by
    obtain ⟨r, new, held, last, result⟩ := h.vars
    exact ⟨r, new, holds r held, vars.trans last, by rw [inst r held, result]⟩

theorem rests (h : p.Supplied q v extensions capabilities interfaces) (rests : q.Rests o) :
    p.Supplied o v extensions capabilities interfaces :=
  h.later rests.version rests.entryPoints rests.holds rests.inst rests.vars
    (h.extensions.later rests.extensions rests.holds fun r _ => rests.inst r)
    (h.capabilities.later rests.capabilities rests.holds fun r _ => rests.inst r)

theorem extension (h : p.Supplied q v extensions capabilities interfaces) (filed : q.Filed) (i : Instruction) :
    p.Supplied ((q.made i).appended .extensions ⟨q.instructions.size⟩) v (extensions ++ [i]) capabilities
      interfaces := by
  have made := filed.rests_made i
  refine h.later rfl rfl made.holds made.inst made.vars (h.extensions.appended h.holds i) ?_
  exact h.capabilities.later rfl made.holds fun r _ => made.inst r

theorem capability (h : p.Supplied q v extensions capabilities interfaces) (filed : q.Filed) (i : Instruction) :
    p.Supplied ((q.made i).appended .capabilities ⟨q.instructions.size⟩) v extensions (capabilities ++ [i])
      interfaces := by
  have made := filed.rests_made i
  refine h.later rfl rfl made.holds made.inst made.vars ?_ (h.capabilities.appended h.holds i)
  exact h.extensions.later rfl made.holds fun r _ => made.inst r

/-- The next entry point gets the variable. -/
theorem interface (h : p.Supplied q v extensions capabilities interfaces) (held : p.Holds r)
    (new : r ∉ interfaces) :
    p.Supplied (q.withOperand r (.ofId (.int v))) v extensions capabilities (interfaces ++ [r]) := by
  let o := q.withOperand r (.ofId (.int v))
  have holds : ∀ s, q.Holds s → o.Holds s := fun s old => Nat.lt_of_lt_of_eq old (size_withOperand ..).symm
  -- Only the entry point changes, and it was held from the start, so what was supplied since is left alone.
  have other : ∀ s, s ≠ r → o.inst s = q.inst s := fun s differ => inst_withOperand_of_ne q _ differ
  have apart : ∀ s, ¬p.Holds s → q.Holds s → o.inst s = q.inst s := fun s absent _ =>
    other s fun same => absent (same ▸ held)
  refine ⟨h.version, h.extensions.later rfl holds apart, h.capabilities.later rfl holds apart, h.entryPoints,
    fun s old => holds s (h.holds s old), fun s old => ?_, ?_⟩
  · by_cases same : s = r
    · subst same
      have own : o.inst s = (q.inst s).extended [.ofId (.int v)] := by
        rw [show o = q.changeInst s _ from rfl, inst_changeInst, if_pos ⟨rfl, h.holds s old⟩]
        rfl
      rw [show (q.withOperand s (.ofId (.int v))).inst s = _ from own, h.inst s old, if_neg new,
        if_pos (List.mem_append_right _ (List.mem_singleton_self s))]
    · have among : s ∈ interfaces ++ [r] ↔ s ∈ interfaces := by simp [same]
      rw [show (q.withOperand r (.ofId (.int v))).inst s = _ from other s same, h.inst s old]
      simp only [among]
  · obtain ⟨s, absent, old, last, result⟩ := h.vars
    have opcodes : ∀ s, (o.inst s).opcode = (q.inst s).opcode := fun s => by
      obtain ⟨more, grown⟩ := q.inst_withOperand_extended r s (.ofId (.int v))
      rw [show o.inst s = _ from grown]
      rfl
    have same : o.vars = q.vars := List.filter_congr fun s _ => by rw [opcodes s]
    have own : (o.inst s).resultId = v := by rw [apart s absent old, result]
    exact ⟨s, absent, holds s old, same.trans last, own⟩

end Supplied

theorem hasStorageBuffers_iff : p.HasStorageBuffers ↔
    ¬(p.module.version < Version.v1_3 ∧ ¬p.Mentions .extensions .extension (.str storageBufferExtension)) := by
  have promoted : Features.isPromoted p.module.version (.str storageBufferExtension) = true ↔
      Version.v1_3 ≤ p.module.version := by
    simp [Features.isPromoted, promotedExtensions, storageBufferExtension]
  rw [HasStorageBuffers, promoted, not_and_or, not_not, Int.not_lt, or_comm]

end Program

/-! ### Workspaces that rest -/

namespace Workspace

def resting : Contract Workspace where
  moves w w' := w.Filed → w'.Filed ∧ w.program.Rests w'.program
  exhausted _ := True
  refl _ h := ⟨h, .refl _⟩
  trans first second h := by
    obtain ⟨filed, rests⟩ := first h
    obtain ⟨filed', rests'⟩ := second filed
    exact ⟨filed', rests.trans rests'⟩

variable {α : Type} {w w' : Workspace} {lengths : Value → Prop} {p : Program} {v : Id}
  {extensions capabilities : List Instruction} {interfaces : List InstRef}

theorem resting_note {target : Value} (note : w.Note target w') : resting.moves w w' := by
  refine fun h => ⟨h.step note.step, ?_⟩
  cases note with
  | find find => exact find.program_eq ▸ .refl _
  | annotate => exact (h.lists.rests_made _).trans (Program.rests_noted _ _)

theorem resting_ask (ask : Ask lengths w w') : resting.moves w w' := by
  refine fun h => ⟨h.step ask.step, ?_⟩
  cases ask with
  | note note => exact (resting_note note h).2
  | types | constants | register => exact .refl _
  | declare _ _ _ plain => exact h.lists.rests_declared plain

theorem resting_take : resting.moves w { w with program := w.program.nextBound } :=
  fun h => ⟨⟨h.lists, fun f known => (h.features f known).extended rfl rfl fun _ _ _ =>
    ⟨[], (Instruction.extended_nil _).symm⟩⟩, ⟨rfl, rfl, rfl, rfl, fun _ => id, fun _ _ => rfl, rfl⟩⟩

theorem resting_making (turn : Making (Ask lengths) w w') : resting.moves w w' := by
  cases turn with
  | turn ask => exact resting_ask ask
  | take => exact resting_take
  | make i =>
    exact fun h => ⟨h.grown (w.program.grows_made i) (.of_same fun place => rfl) rfl rfl rfl, h.lists.rests_made i⟩
  | record => exact fun h => ⟨h.grown (.refl _) (.refl _) rfl rfl rfl, .refl _⟩

theorem resting_of_making (moves : (making (Ask lengths)).moves w w') : resting.moves w w' :=
  moves_of_walk (A := resting.account) (fun _ => resting_making) moves

theorem resting_of_loses (lost : w.Loses w') : resting.moves w w' := by
  cases lost with
  | id => exact resting_take

theorem resting_of_fails {e : Error} (failed : (making (Ask lengths)).fails w e w') : resting.moves w w' :=
  moves_of_fails (A := resting.account) (fun _ => resting_making) resting_of_loses failed

theorem resting_name {i : Instruction} (noResult : i.resultId = 0) (plain : i.opcode ≠ .constant) :
    resting.moves w ({ w with program := w.program.made i }.listed .debugs2 ⟨w.program.instructions.size⟩) :=
  fun h => ⟨h.step (.aside (.name noResult plain fun v _ => Set.mem_univ v)),
    (h.lists.rests_made i).trans (Program.rests_named _ _)⟩

theorem resting_addBufferNames (bufferType buffer : Value) :
    resting.Keeps (addBufferNames bufferType buffer) w fun _ _ => True := by
  have name {w : Workspace} {i : Instruction} (noResult : i.resultId = 0) (plain : i.opcode ≠ .constant) :
      resting.Keeps (do addName (← Program.newInst i) : Action Unit) w fun _ _ => True :=
    Change.After.bind (after_newInst (after_listed ⟨resting_name noResult plain, True.intro⟩))
  have nameOp : Opcode.name ≠ .constant := by decide
  have memberOp : Opcode.memberName ≠ .constant := by decide
  unfold addBufferNames
  refine Keeps.bind_get (Keeps.after_check (Contract.Lenient.account fun _ => True.intro) fun named => ?_)
  split
  · exact name rfl nameOp
  · refine Change.After.bind (after_newInst (Change.After.bind (after_listed ?_)))
    refine Keeps.after_move ?_ (resting_name rfl nameOp)
    refine Change.After.bind (after_newInst (Change.After.bind (after_listed ?_)))
    exact (name rfl nameOp).after_move (resting_name rfl memberOp)

/-! ### Features and interfaces -/

structure Supplies (p : Program) (v : Id) (extensions capabilities : List Instruction) (interfaces : List InstRef)
    (w : Workspace) : Prop where
  filed : w.Filed
  supplied : p.Supplied w.program v extensions capabilities interfaces

theorem Supplies.rests (h : Supplies p v extensions capabilities interfaces w) (move : resting.moves w w') :
    Supplies p v extensions capabilities interfaces w' := by
  obtain ⟨filed, rests⟩ := move h.filed
  exact ⟨filed, h.supplied.rests rests⟩

theorem supplies_declareBufferVariable (filed : w.Filed) (rests : p.Rests w.program) (pointerType : Id) :
    Then (declareBufferVariable pointerType) w fun id w' => Supplies p id [] [] [] w' := by
  unfold declareBufferVariable
  refine Change.After.bind (after_takeId (fun _ => True.intro) fun free => ?_)
  refine Change.After.bind (after_newInst (Change.After.bind (after_listed (Change.After.pure ?_))))
  let i := bufferDeclaration pointerType w.program.module.idBound
  have holds : ∀ r, w.program.Holds r → (w.program.declared i).Holds r := fun _ =>
    (w.program.nextBound.grows_made i).holds
  have inst : ∀ r, w.program.Holds r → (w.program.declared i).inst r = w.program.inst r := fun r held =>
    w.program.nextBound.inst_made_of_lt i held
  refine ⟨filed.step (.declare (i := i) free rfl), rests.version, .of_same rests.extensions,
    .of_same rests.capabilities, rests.entryPoints, fun r held => holds r (rests.holds r held), fun r held => ?_, ?_⟩
  · rw [if_neg List.not_mem_nil]
    exact (inst r (rests.holds r held)).trans (rests.inst r held)
  · refine ⟨⟨w.program.instructions.size⟩, fun held => Nat.lt_irrefl _ (rests.holds _ held),
      w.program.nextBound.holds_made i, ?_, congrArg Instruction.resultId (w.program.inst_declared i)⟩
    exact (filed.lists.vars_declared i).trans (congrArg (· ++ _) rests.vars)

theorem supplies_provideExtension (filed : p.Filed) (h : Supplies p v [] capabilities [] w) :
    Then provideExtension w fun _ w' => Supplies p v p.newExtensions capabilities [] w' := by
  unfold provideExtension
  refine (then_needFeatures h.filed).bind fun f w₁ held => Change.After.bind_get ?_
  obtain ⟨program, filed₁, reads⟩ := held
  have present := reads.hasExtension_iff h.filed.lists
  have before : w.program.HasStorageBuffers ↔ p.HasStorageBuffers := by
    have mentions := h.supplied.extensions.mentions .extension (.str storageBufferExtension) filed
      h.supplied.holds fun r held => by rw [h.supplied.inst r held, if_neg List.not_mem_nil]
    rw [Program.HasStorageBuffers, mentions, h.supplied.version]
    simp [Program.HasStorageBuffers]
  rw [before, Program.hasStorageBuffers_iff, ← program] at present
  unfold Program.newExtensions
  split
  next has =>
    rw [if_neg (present.mp has)]
    exact Change.After.pure ⟨filed₁, program ▸ h.supplied⟩
  next absent =>
    rw [if_pos (Classical.not_not.mp (mt present.mpr absent))]
    have aside : w₁.Aside ∅ ∅ _ := .extension (.str storageBufferExtension)
    exact Change.After.ran rfl ⟨filed₁.aside aside, (program ▸ h.supplied).extension filed₁.lists _⟩

theorem supplies_provideCapability (capability : Int) (filed : p.Filed)
    (others : ∀ i ∈ capabilities, i.value 0 ≠ .ok (.int capability)) (h : Supplies p v extensions capabilities [] w) :
    Then (provideCapability capability) w fun _ w' =>
      Supplies p v extensions (capabilities ++ p.newCapability capability) [] w' := by
  unfold provideCapability
  refine (then_needFeatures h.filed).bind fun f w₁ held => ?_
  obtain ⟨program, filed₁, reads⟩ := held
  have present := reads.hasCapability_iff h.filed.lists capability
  have before := h.supplied.capabilities.mentions .capability (.int capability) filed
    h.supplied.holds fun r held => by rw [h.supplied.inst r held, if_neg List.not_mem_nil]
  rw [before, or_iff_left fun ⟨i, member, _, same⟩ => others i member same] at present
  unfold Program.newCapability
  split
  next has =>
    rw [if_pos (present.mp has), List.append_nil]
    exact Change.After.pure ⟨filed₁, program ▸ h.supplied⟩
  next absent =>
    rw [if_neg (mt present.mpr absent)]
    have aside : w₁.Aside ∅ ∅ _ := .capability (c := .int capability) rfl fun _ => .inl rfl
    exact Change.After.ran rfl ⟨filed₁.aside aside, (program ▸ h.supplied).capability filed₁.lists _⟩

theorem supplies_provideWideCounters (filed : p.Filed) (h : Supplies p v extensions [] [] w) :
    Then provideWideCounters w fun _ w' => Supplies p v extensions (p.newCapabilities true) [] w' := by
  unfold provideWideCounters
  have first := supplies_provideCapability Capability.int64 filed (fun _ member => absurd member List.not_mem_nil) h
  refine first.bind fun _ w₁ first => ?_
  refine supplies_provideCapability _ filed (fun i member => ?_) first
  unfold Program.newCapability at member
  split at member
  · cases member
  · obtain rfl := List.mem_singleton.mp member
    decide

/-- Each entry point gets the variable as it comes. -/
theorem supplies_interfaces (filed : p.Filed) {entries : List InstRef}
    (h : Supplies p v extensions capabilities interfaces w) (late : Version.v1_4 ≤ p.module.version)
    (split : p.module.entryPoints = interfaces ++ entries) (distinct : p.module.entryPoints.Nodup) :
    Then (entries.forM fun r => do
      Program.addOperand r (.ofId (.int v))
      recordUses r) w fun _ w' => Supplies p v extensions capabilities p.module.entryPoints w' := by
  induction entries generalizing interfaces w with
  | nil =>
    rw [List.append_nil] at split
    exact Change.After.pure (split ▸ h)
  | cons r rest ih =>
    have member : r ∈ p.module.entryPoints := split ▸ List.mem_append_right _ (List.mem_cons_self ..)
    have new : r ∉ interfaces := by
      rw [split] at distinct
      exact fun before => List.disjoint_of_nodup_append distinct before (List.mem_cons_self ..)
    refine Change.After.bind (after_longer (ih ⟨?_, h.supplied.interface (filed .entryPoints r member) new⟩ ?_))
    · refine h.filed.step (.aside (.lengthen ?_ ?_ rfl (Set.mem_univ _)))
      · rwa [h.supplied.version]
      · rwa [h.supplied.entryPoints]
    · rw [split, List.append_assoc]
      rfl

theorem supplies_extendInterfaces (filed : p.Filed) (distinct : p.module.entryPoints.Nodup)
    (h : Supplies p v extensions capabilities [] w) :
    Then (extendInterfaces v) w fun _ w' => Supplies p v extensions capabilities p.newInterfaces w' := by
  unfold extendInterfaces
  refine Change.After.bind_get ?_
  dsimp only
  unfold Program.newInterfaces
  rw [h.supplied.version, h.supplied.entryPoints]
  split
  next late => exact supplies_interfaces filed h late rfl distinct
  next => exact Change.After.pure h

end Workspace

end BlockTally
