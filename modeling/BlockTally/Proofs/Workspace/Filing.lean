import BlockTally.Proofs.Workspace.Steps

/-! What a module lists.

Requests list what they have made. So no entry point is listed in another section later on, and an instruction that is
found in a section is found there for good.
-/

set_option autoImplicit false

namespace BlockTally

namespace Program

variable {p q o : Program} {place : Section} {opcode : Opcode} {v : Value} {r : InstRef}

def Filed (p : Program) : Prop :=
  ∀ place, ∀ r ∈ p.module.list place, p.Holds r

def ListsNew (p q : Program) : Prop :=
  ∀ place, ∀ r ∈ q.module.list place, r ∈ p.module.list place ∨ ¬p.Holds r ∧ q.Holds r

def Mentions (p : Program) (place : Section) (opcode : Opcode) (v : Value) : Prop :=
  ∃ r ∈ p.module.list place, p.Holds r ∧ (p.inst r).opcode = opcode ∧ (p.inst r).value 0 = .ok v

theorem Mentions.of_grows (h : p.Mentions place opcode v) (grows : p.Grows q) : q.Mentions place opcode v := by
  obtain ⟨r, member, held, same, value⟩ := h
  obtain ⟨more, extended⟩ := grows.extended held
  refine ⟨r, (grows.module.longer place).subset member, grows.holds held, (grows.opcode held).trans same, ?_⟩
  rw [extended]
  exact Instruction.value_extended more value

theorem Closed.filed (h : p.Closed) : p.Filed :=
  fun place _ member => h _ (mem_allInsts_of_list place member)

theorem Filed.later (h : p.Filed) (grows : p.Grows q) (new : p.ListsNew q) : q.Filed :=
  fun place r member => (new place r member).elim (fun old => grows.holds (h place r old)) And.right

namespace ListsNew

theorem of_same (same : ∀ place, q.module.list place = p.module.list place) : p.ListsNew q :=
  fun place _ member => .inl (same place ▸ member)

theorem refl (p : Program) : p.ListsNew p :=
  of_same fun _ => rfl

theorem trans (first : p.ListsNew q) (grows : p.Grows q) (later : q.Grows o) (second : q.ListsNew o) :
    p.ListsNew o := by
  intro place r member
  rcases second place r member with before | ⟨absent, held⟩
  · exact (first place r before).imp_right fun new => ⟨new.1, later.holds new.2⟩
  · exact .inr ⟨fun old => absent (grows.holds old), held⟩

/-- An instruction is made and listed. -/
theorem appended (p : Program) (i : Instruction) (place : Section) :
    p.ListsNew ((p.made i).appended place ⟨p.instructions.size⟩) := by
  intro other r member
  have among : r ∈ ((p.made i).module.setList place (p.module.list place ++ [⟨p.instructions.size⟩])).list other :=
    member
  rw [Module.list_setList] at among
  split at among
  next same =>
    subst same
    rcases List.mem_append.mp among with old | new
    · exact .inl old
    · obtain rfl := List.mem_singleton.mp new
      exact .inr ⟨Nat.lt_irrefl _, p.holds_made i⟩
  next => exact .inl among

end ListsNew

def Reads (p : Program) (r : InstRef) : Prop :=
  r ∈ p.module.typesValues ∧ ((p.inst r).opcode.declaresType = true ∨ (p.inst r).opcode = .constant) ∨
    r ∈ p.module.annotations ∧ (p.inst r).annotates = true

/-- Where interfaces list the global variables, entry points are neither declarations nor annotations. -/
def EntriesApart (p : Program) : Prop :=
  Version.v1_4 ≤ p.module.version → ∀ r ∈ p.module.entryPoints, ¬p.Reads r

theorem EntriesApart.later (h : p.EntriesApart) (filed : p.Filed) (grows : p.Grows q) (new : p.ListsNew q) :
    q.EntriesApart := by
  intro late r entry read
  rw [grows.module.version] at late
  rw [grows.module.entryPoints] at entry
  have held : p.Holds r := filed .entryPoints r entry
  have old (place : Section) (member : r ∈ q.module.list place) : r ∈ p.module.list place :=
    (new place r member).resolve_right fun made => made.1 held
  obtain ⟨more, same⟩ := grows.extended held
  rw [Reads, same] at read
  exact h late r entry (read.imp (And.imp_left (old .typesValues)) (And.imp_left (old .annotations)))

def NotesApart (p : Program) : Prop :=
  Version.v1_4 ≤ p.module.version → ∀ r ∈ p.module.annotations, (p.inst r).annotates = true → r ∉ p.module.entryPoints

instance (p : Program) : Decidable p.NotesApart :=
  inferInstanceAs (Decidable (_ → ∀ r ∈ p.module.annotations, _))

/-- Entry points are no annotations and have more than one operand. They may still declare types. -/
structure EntriesFirm (p : Program) : Prop where
  apart : p.NotesApart
  operands : ∀ r ∈ p.module.entryPoints, 2 ≤ (p.inst r).operands.length

theorem EntriesFirm.later (h : p.EntriesFirm) (filed : p.Filed) (grows : p.Grows q) (new : p.ListsNew q) :
    q.EntriesFirm := by
  refine ⟨fun late r listed annotates entry => ?_, fun r entry => ?_⟩
  all_goals
    rw [grows.module.entryPoints] at entry
    have held : p.Holds r := filed .entryPoints r entry
  · rw [grows.module.version] at late
    have old : r ∈ p.module.annotations := (new .annotations r listed).resolve_right fun made => made.1 held
    refine h.apart late r old ?_ entry
    rwa [Instruction.annotates, grows.opcode held] at annotates
  · obtain ⟨more, same⟩ := grows.extended held
    rw [same]
    exact Nat.le_trans (h.operands r entry) (by simp [Instruction.extended])

end Program

namespace Workspace

variable {w w' : Workspace}

structure Filed (w : Workspace) : Prop where
  lists : w.program.Filed
  features : ∀ f, w.facts.features = some f → f.Reads ∅ w.program

theorem Aside.listsNew {texts targets : Set Value} (aside : w.Aside texts targets w') :
    w.program.ListsNew w'.program := by
  cases aside with
  | find find => exact find.program_eq ▸ .refl _
  | lengthen => exact .of_same fun place => by cases place <;> rfl
  | name | capability | extension => exact .appended _ _ _

theorem Step.listsNew {texts : Set Value} (step : w.Step texts w') : w.program.ListsNew w'.program := by
  cases step with
  | aside aside => exact aside.listsNew
  | types | constants => exact .refl _
  | declare | annotate => exact .appended _ _ _

/-- A step that leaves the features alone. -/
theorem Filed.grown (h : w.Filed) (grows : w.program.Grows w'.program) (new : w.program.ListsNew w'.program)
    (capabilities : w'.program.module.capabilities = w.program.module.capabilities)
    (extensions : w'.program.module.extensions = w.program.module.extensions)
    (features : w'.facts.features = w.facts.features) : w'.Filed where
  lists := h.lists.later grows new
  features f known := (h.features f (features ▸ known)).extended capabilities extensions fun place r member =>
    grows.extended (h.lists place r member)

theorem Filed.aside {targets : Set Value} (h : w.Filed) (aside : w.Aside ∅ targets w') : w'.Filed := by
  have grows := aside.program_extends.toGrows
  have new := aside.listsNew
  cases aside with
  | name | lengthen => exact h.grown grows new rfl rfl rfl
  | find find =>
    cases find with
    | uses | annotations => exact h.grown grows new rfl rfl rfl
    | features read =>
      refine ⟨h.lists, fun f known => ?_⟩
      obtain rfl := Option.some.inj known
      exact Features.reads_ofProgram read
  | capability _ told =>
    refine ⟨h.lists.later grows new, fun f known => ?_⟩
    obtain ⟨f, before, rfl⟩ := Option.map_eq_some_iff.mp known
    exact (h.features f before).capability h.lists (told (by rw [before]; nofun))
  | extension text =>
    refine ⟨h.lists.later grows new, fun f known => ?_⟩
    obtain ⟨f, before, rfl⟩ := Option.map_eq_some_iff.mp known
    exact (h.features f before).extension h.lists text

theorem Filed.step (h : w.Filed) (step : w.Step ∅ w') : w'.Filed := by
  have grows := step.program_extends.toGrows
  have new := step.listsNew
  cases step with
  | aside aside => exact h.aside aside
  | types | constants | declare | annotate => exact h.grown grows new rfl rfl rfl

/-- After any steps the module is filed, and what is new in it has been made since. -/
theorem Filed.steps (h : w.Filed) (moves : (steps ∅).moves w w') : w'.Filed ∧ w.program.ListsNew w'.program := by
  induction moves with
  | refl => exact ⟨h, .refl _⟩
  | tail before step ih =>
    exact ⟨ih.1.step step, ih.2.trans (extends_of_steps before).toGrows step.program_extends.toGrows step.listsNew⟩

end Workspace

end BlockTally
