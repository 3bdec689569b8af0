import BlockTally.Proofs.Workspace.Steps

/-! Contracts of the edits of a workspace.

Editing lists instructions without results and leaves the tables of types and constants alone. What is done in notes
and steps aside is such an edit, as long as its targets are defined. A request may also take ids, and then fail for want
of them.
-/

set_option autoImplicit false

namespace BlockTally.Workspace

open Account Contract

/-- The workspace moves on: its program grows outside of blocks, and types that can be looked up still can. Under the
assumption `good`, a sound workspace also stays sound, and what was known of the types is known. -/
structure Advances (good : Prop) (w w' : Workspace) : Prop where
  program : w.program.Extends w'.program
  types : ∀ t, w.facts.types = some t → ∃ t', w'.facts.types = some t' ∧
    (good → ∀ v ty, t.type? v = some ty → t'.type? v = some ty)
  sound : good → ∀ pending, w.Sound pending → w'.Sound pending

def Sane (good : Prop) (w : Workspace) : Prop :=
  good → ∃ pending, w.Sound pending

variable {good : Prop}

namespace Advances

theorem refl (w : Workspace) : w.Advances good w :=
  ⟨.refl _, fun t found => ⟨t, found, fun _ _ _ known => known⟩, fun _ _ => id⟩

theorem trans {w w' w'' : Workspace} (first : w.Advances good w') (second : w'.Advances good w'') :
    w.Advances good w'' where
  program := first.program.trans second.program
  types t found := by
    obtain ⟨t', found', more⟩ := first.types t found
    obtain ⟨t'', found'', more'⟩ := second.types t' found'
    exact ⟨t'', found'', fun assumed v ty known => more' assumed v ty (more assumed v ty known)⟩
  sound assumed pending sound := second.sound assumed pending (first.sound assumed pending sound)

variable {w w' : Workspace}

/-- The types are left alone. -/
theorem of_types (program : w.program.Extends w'.program) (types : w'.facts.types = w.facts.types)
    (sound : good → ∀ pending, w.Sound pending → w'.Sound pending) : w.Advances good w' :=
  ⟨program, fun t found => ⟨t, types.trans found, fun _ _ _ known => known⟩, sound⟩

variable (h : w.Advances good w') (before : w.Sane good)
include h before

theorem sane : w'.Sane good := by
  intro assumed
  obtain ⟨pending, sound⟩ := before assumed
  exact ⟨pending, h.sound assumed pending sound⟩

theorem defines {v : Value} (known : good → w.program.Defines v) : good → w'.program.Defines v := by
  intro assumed
  obtain ⟨pending, sound⟩ := before assumed
  exact sound.linked.defines_of_grows h.program.toGrows h.program.blocks (known assumed)

theorem hasConstant {id : Id} {value : Value} (known : good → w.program.HasConstant id value) :
    good → w'.program.HasConstant id value := by
  intro assumed
  obtain ⟨pending, sound⟩ := before assumed
  exact sound.linked.hasConstant_of_grows h.program.toGrows sound.numbered (known assumed)

theorem hasBuffer {id : Id} (known : good → id ≠ 0 ∧ w.program.HasBuffer id) :
    good → id ≠ 0 ∧ w'.program.HasBuffer id := by
  intro assumed
  obtain ⟨pending, sound⟩ := before assumed
  obtain ⟨result, declared⟩ := known assumed
  exact ⟨result, sound.linked.hasBuffer_of_grows h.program.toGrows result declared⟩

theorem knows {id : Id} {ty : Ty} (known : good → w.Knows id ty) : good → w'.Knows id ty := by
  intro assumed
  obtain ⟨defined, t, ty', found, type, same⟩ := known assumed
  obtain ⟨t', found', more⟩ := h.types t found
  exact ⟨h.defines before (fun _ => defined) assumed, t', ty', found', more assumed _ _ type, same⟩

end Advances

def edits (good : Prop) : Contract Workspace where
  moves w w' := w.Advances good w' ∧ w'.facts.types = w.facts.types ∧ w'.facts.constants = w.facts.constants
  exhausted _ := False
  refl w := ⟨.refl w, rfl, rfl⟩
  trans first second := ⟨first.1.trans second.1, second.2.1.trans first.2.1, second.2.2.trans first.2.2⟩

def requests (good : Prop) : Contract Workspace where
  moves := Advances good
  exhausted w := maxIdBound ≤ w.program.module.idBound
  refl := .refl
  trans := .trans

variable {α : Type} {w w' : Workspace}

/-! ### Facts, names and annotations -/

theorem advances_of_looks (look : looks.moves w w') : (edits good).moves w w' := by
  obtain ⟨program, types, constants⟩ := look
  exact ⟨.of_types (program ▸ .refl _) types fun _ _ sound => sound.congr program types constants, types, constants⟩

theorem advances_made (i : Instruction) : (edits good).moves w { w with program := w.program.made i } := by
  have extended : w.program.Extends (w.program.made i) := ⟨w.program.grows_made i, rfl⟩
  refine ⟨.of_types extended rfl fun _ pending sound => ?_, rfl, rfl⟩
  exact sound.extend extended rfl rfl (sound.linked.made i) fun r member new => absurd member new

/-- An instruction is made and listed that has no result and uses nothing undefined. -/
theorem advances_listed {place : Section} {i : Instruction} (sane : w.Sane good) (isOpen : place.isOpen = true)
    (noResult : i.resultId = 0) (plain : i.opcode ≠ .constant) (uses : good → ∀ v ∈ i.usedIds, w.program.Defines v) :
    (edits good).moves w
      { w with program := (w.program.made i).appended place ⟨w.program.instructions.size⟩ } := by
  have made : (edits good).moves w { w with program := w.program.made i } := advances_made i
  refine (edits good).trans made ?_
  have inst := w.program.inst_made i
  have extended : (w.program.made i).Extends ((w.program.made i).appended place ⟨w.program.instructions.size⟩) :=
    ⟨Program.grows_appended _ _ isOpen, rfl⟩
  refine ⟨.of_types extended rfl fun assumed pending sound => ?_, rfl, rfl⟩
  have own : ((w.program.made i).inst ⟨w.program.instructions.size⟩).ownIds = [] := by
    simp [inst, Instruction.ownIds, Instruction.hasResult, noResult]
  refine sound.extend extended rfl rfl (Program.Linked.appended ?_ place (w.program.holds_made i) ?_) ?_
  · rw [own]
    exact sound.linked
  · rw [inst]
    exact fun v used => made.1.defines sane (fun assumed => uses assumed v used) assumed
  · intro s member other constant
    obtain rfl := ((w.program.made i).mem_typesValues_appended member).resolve_left other
    exact absurd (inst ▸ constant) plain

/-- Decorations of what is defined are edits. -/
theorem Note.advances {target : Value} (note : w.Note target w') (sane : w.Sane good)
    (known : good → w.program.Defines target) : (edits good).moves w w' := by
  cases note with
  | find find => exact advances_of_looks find.looks
  | @annotate opcode operands a decorates literal =>
    have plain : opcode ≠ .constant := by rcases decorates with rfl | rfl <;> decide
    refine (edits good).trans (advances_listed sane rfl rfl plain fun assumed v used => ?_)
      (advances_of_looks ⟨rfl, rfl, rfl⟩)
    have none : operands.filter Operand.isId = [] := by
      rw [List.filter_eq_nil_iff]
      exact fun operand member => by simp [literal operand member]
    have used : v ∈ ((.ofId target :: operands).filter Operand.isId).map Operand.value := used
    rw [List.filter_cons_of_pos rfl, none] at used
    exact List.mem_singleton.mp used ▸ known assumed

theorem Aside.advances {texts targets : Set Value} (aside : w.Aside texts targets w') (sane : w.Sane good)
    (known : good → ∀ v ∈ targets, w.program.Defines v) : (edits good).moves w w' := by
  cases aside with
  | find find => exact advances_of_looks find.looks
  | name noResult plain used =>
    have uses : good → ∀ v ∈ _, w.program.Defines v := fun assumed v member => known assumed v (used v member)
    exact (edits good).trans (advances_listed sane rfl noResult plain uses) (advances_of_looks ⟨rfl, rfl, rfl⟩)
  | capability =>
    have plain : Opcode.capability ≠ .constant := by decide
    refine (edits good).trans (advances_listed sane rfl rfl plain fun _ v used => ?_)
      (advances_of_looks ⟨rfl, rfl, rfl⟩)
    exact (List.not_mem_nil used).elim
  | extension =>
    have plain : Opcode.extension ≠ .constant := by decide
    refine (edits good).trans (advances_listed sane rfl rfl plain fun _ v used => ?_)
      (advances_of_looks ⟨rfl, rfl, rfl⟩)
    exact (List.not_mem_nil used).elim
  | @lengthen r operand _ entry _ used =>
    have extended : w.program.Extends (w.program.withOperand r operand) :=
      ⟨Program.grows_withOperand operand entry, rfl⟩
    refine ⟨.of_types extended rfl fun assumed pending sound => ?_, rfl, rfl⟩
    exact sound.extend extended rfl rfl (sound.linked.withOperand r fun _ => known assumed _ used)
      fun s member new => absurd member new

theorem edits_of_finds {change : Action α} {post : α → Workspace → Prop} (h : finds.Keeps change w post) :
    (edits good).Keeps change w post :=
  keeps_of_inSteps (fun _ find => advances_of_looks find.looks) h

theorem edits_of_notes {target : Value} {change : Action α} {post : α → Workspace → Prop} (sane : w.Sane good)
    (known : good → w.program.Defines target) (h : (notes target).Keeps change w post) :
    (edits good).Keeps change w post :=
  keeps_of_inSteps (fun move note => note.advances (move.1.sane sane) (move.1.defines sane known)) h

theorem edits_of_asides {texts targets : Set Value} {change : Action α} {post : α → Workspace → Prop}
    (sane : w.Sane good) (known : good → ∀ v ∈ targets, w.program.Defines v)
    (h : (asides texts targets).Keeps change w post) : (edits good).Keeps change w post :=
  keeps_of_inSteps (fun move aside => aside.advances (move.1.sane sane) fun assumed v member =>
    move.1.defines sane (fun assumed => known assumed v member) assumed) h

theorem Keeps.requests_of_edits {change : Action α} {post : α → Workspace → Prop}
    (h : (edits good).Keeps change w post) : (requests good).Keeps change w post :=
  h.weaken (fun _ move => move.1) fun _ => False.elim

/-- A request that begins with an edit. -/
theorem Keeps.bind_edit {β : Type} {change : Action α} {next : α → Action β} {post : α → Workspace → Prop}
    {last : β → Workspace → Prop} (h : (edits good).Keeps change w post)
    (rest : ∀ a w', (edits good).moves w w' → post a w' → (requests good).Keeps (next a) w' last) :
    (requests good).Keeps (change >>= next) w last :=
  (Keeps.requests_of_edits h.with_move).bind fun a w' _ held => rest a w' held.1 held.2

end BlockTally.Workspace
