import BlockTally.Proofs.Workspace.Filing
import BlockTally.Proofs.Workspace.RoundTrip

/-! Modules that are read alike.

A fresh reading looks at the declarations of types and constants and at the annotations only. So it finds the same
tables after other instructions were made or listed, after a variable was declared, and after an id that is no type's
was annotated.
-/

set_option autoImplicit false

namespace BlockTally

namespace Program

variable {p q : Program} {a : Annotations} {r : InstRef}

theorem Filed.globalsHeld (h : p.Filed) : p.GlobalsHeld :=
  fun r member => (List.mem_append.mp member).elim (h .typesValues r) (h .annotations r)

structure NotesAlike (p q : Program) : Prop where
  annotations : q.module.annotations = p.module.annotations
  /-- An instruction among the annotations either is one and the same, or is none in either program. -/
  annotation : ∀ r ∈ p.module.annotations,
    q.inst r = p.inst r ∨ (p.inst r).annotates = false ∧ (q.inst r).annotates = false

namespace NotesAlike

variable (h : p.NotesAlike q)
include h

theorem target? (member : r ∈ p.module.annotations) : (q.inst r).target? = (p.inst r).target? := by
  rcases h.annotation r member with same | ⟨before, after⟩
  · rw [same]
  · simp [Instruction.target?, before, after]

theorem ofProgram : Annotations.ofProgram q = Annotations.ofProgram p := by
  unfold Annotations.ofProgram
  rw [h.annotations]
  refine except_foldlM_congr fun r member a => ?_
  rcases h.annotation r member with same | ⟨before, after⟩
  · simp only [Annotations.analyze, same]
  · rw [Annotations.analyze_of_plain before, Annotations.analyze_of_plain after]

theorem valuesOn (read : Annotations.ofProgram p = .ok a) (target : Value) (opcode : Opcode) :
    Annotations.valuesOn q a target opcode = Annotations.valuesOn p a target opcode := by
  have same : ∀ r ∈ a.on target, q.inst r = p.inst r := by
    intro r among
    obtain ⟨member, found⟩ := (Annotations.mem_on read).mp among
    rcases h.annotation r member with same | ⟨before, -⟩
    · exact same
    · simp [Instruction.target?, before] at found
  unfold Annotations.valuesOn
  rw [List.filter_congr fun r among => by rw [same r among]]
  exact List.map_congr_left fun r among => by rw [same r (List.mem_of_mem_filter among)]

theorem ofType (read : Annotations.ofProgram p = .ok a) (target : Value) :
    Annotations.ofType q a target = Annotations.ofType p a target := by
  rw [Annotations.ofType_eq read, Annotations.ofType_eq (h.ofProgram.trans read), h.valuesOn read, h.valuesOn read]

end NotesAlike

/-- A fresh reading of the second program looks at the same instructions. -/
structure ReadsAlike (p q : Program) : Prop where
  typesValues : q.module.typesValues = p.module.typesValues
  annotations : q.module.annotations = p.module.annotations
  opcode : ∀ r ∈ p.module.typesValues ++ p.module.annotations, (q.inst r).opcode = (p.inst r).opcode
  inst : ∀ r, p.Reads r → q.inst r = p.inst r
  bound : p.module.idBound ≤ q.module.idBound

namespace ReadsAlike

theorem refl (p : Program) : p.ReadsAlike p :=
  ⟨rfl, rfl, fun _ _ => rfl, fun _ _ => rfl, Int.le_refl _⟩

/-- What was made before is as it was. -/
theorem of_same (typesValues : q.module.typesValues = p.module.typesValues)
    (annotations : q.module.annotations = p.module.annotations) (filed : p.Filed)
    (same : ∀ r, p.Holds r → q.inst r = p.inst r) (bound : p.module.idBound ≤ q.module.idBound) : p.ReadsAlike q where
  typesValues := typesValues
  annotations := annotations
  opcode r member := by
    rw [same r ((List.mem_append.mp member).elim (filed .typesValues r) (filed .annotations r))]
  inst r read := same r (read.elim (fun declared => filed .typesValues r declared.1)
    fun note => filed .annotations r note.1)
  bound := bound

/-- What is put into a block is not read. -/
theorem inserted (filed : p.Filed) (b : BlockRef) (gap : Nat) (refs : List InstRef) :
    p.ReadsAlike (p.inserted b gap refs) :=
  .of_same (congrArg _ module_inserted) (congrArg _ module_inserted) filed (fun r _ => inst_inserted r)
    (Int.le_of_eq (congrArg _ module_inserted.symm))

theorem trans {o : Program} (first : p.ReadsAlike q) (second : q.ReadsAlike o) : p.ReadsAlike o := by
  have same {r : InstRef} (read : p.Reads r) : q.inst r = p.inst r := first.inst r read
  refine ⟨second.typesValues.trans first.typesValues, second.annotations.trans first.annotations, fun r member => ?_,
    fun r read => (second.inst r ?_).trans (same read), Int.le_trans first.bound second.bound⟩
  · rw [second.opcode r, first.opcode r member]
    rwa [first.typesValues, first.annotations]
  · rw [Reads, same read, first.typesValues, first.annotations]
    exact read

variable (h : p.ReadsAlike q)
include h

theorem declarations : q.declarations = p.declarations := by
  unfold Program.declarations
  rw [h.typesValues]
  exact List.filter_congr fun r member => by rw [h.opcode r (List.mem_append_left _ member)]

theorem declaration (member : r ∈ p.declarations) : q.inst r = p.inst r := by
  obtain ⟨listed, declares⟩ := List.mem_filter.mp member
  exact h.inst r (.inl ⟨listed, .inl declares⟩)

theorem notesAlike : p.NotesAlike q := by
  refine ⟨h.annotations, fun r member => ?_⟩
  cases annotates : (p.inst r).annotates with
  | true => exact .inl (h.inst r (.inr ⟨member, annotates⟩))
  | false =>
    have opcode := h.opcode r (List.mem_append_right _ member)
    exact .inr ⟨rfl, by rwa [Instruction.annotates, opcode]⟩

theorem ofProgram : Annotations.ofProgram q = Annotations.ofProgram p :=
  h.notesAlike.ofProgram

theorem read (read : Annotations.ofProgram p = .ok a) (member : r ∈ p.declarations) (t : TypeTable) :
    TypeTable.read q a t r = TypeTable.read p a t r := by
  simp only [TypeTable.read, h.declaration member, h.notesAlike.ofType read]

theorem typeTable : q.typeTable = p.typeTable := by
  unfold Program.typeTable
  rw [h.declarations, h.ofProgram]
  cases annotated : Annotations.ofProgram p with
  | error => rfl
  | ok a =>
    split
    · rfl
    · exact except_foldlM_congr fun r member t => h.read annotated member t

theorem constantTable : q.constantTable = p.constantTable := by
  unfold Program.constantTable
  rw [h.typeTable, h.typesValues]
  congr 1
  funext t
  refine congrArg Except.ok (List.foldl_ext _ _ _ fun c r member => ?_)
  by_cases constant : (p.inst r).opcode = .constant
  · simp only [Workspace.readConstant, h.inst r (.inl ⟨member, .inr constant⟩)]
  · rw [readConstant_of_ne _ _ constant, readConstant_of_ne]
    rwa [h.opcode r (List.mem_append_left _ member)]

theorem bounded (before : p.Bounded) (held : q.GlobalsHeld) : q.Bounded where
  held := held
  distinct := by
    rw [h.declarations, List.map_congr_left fun r member => by rw [h.declaration member]]
    exact before.distinct
  ids r member := by
    rw [h.declarations] at member
    rw [h.declaration member]
    exact (before.ids r member).imp_right fun below => Int.lt_of_lt_of_le below h.bound
  typed r member constant := by
    rw [h.typesValues] at member
    rw [h.opcode r (List.mem_append_left _ member)] at constant
    rw [h.inst r (.inl ⟨member, .inr constant⟩)]
    exact fun typed => Int.lt_of_lt_of_le (before.typed r member constant typed) h.bound
  targets r member id found := by
    rw [h.annotations] at member
    rw [h.notesAlike.target? member] at found
    exact Int.lt_of_lt_of_le (before.targets r member id found) h.bound

end ReadsAlike

/-! ### Declarations that are neither types nor constants -/

variable {notes : List InstRef}

theorem Declared.typeTable_of_variable (h : p.Declared q r []) (variable' : (q.inst r).opcode = .var) :
    q.typeTable = p.typeTable := by
  refine h.adds.typeTable_eq rfl fun s member => ?_
  obtain rfl := List.mem_singleton.mp member
  rw [variable']
  rfl

theorem Declared.variable (h : p.Declared q r []) (before : p.Bounded) (variable' : (q.inst r).opcode = .var) :
    q.typeTable = p.typeTable ∧ ∀ c, p.constantTable = .ok c → q.constantTable = .ok c := by
  have types := h.typeTable_of_variable variable'
  refine ⟨types, fun c table => ?_⟩
  obtain ⟨t, read, -⟩ := except_bind_ok_iff.mp table
  rw [constantTable_ok read] at table
  obtain rfl := Except.ok.inj table
  rw [constantTable_ok (types.trans read), h.foldl_readConstant before fun _ _ => rfl, readConstant_of_ne]
  rw [variable']
  decide

/-- The id has been taken and is no type's, and it is annotated with the given values only. -/
structure Carries (p : Program) (id : Id) (given : List Decoration) : Prop where
  below : id < p.module.idBound
  declarations : ∀ r ∈ p.declarations, (p.inst r).resultId ≠ id
  given : ∀ r ∈ p.module.annotations, (p.inst r).target? = some (.int id) → (p.inst r).valuesFrom 1 ∈ given

theorem ReadsAlike.carries {id : Id} {given : List Decoration} (h : p.ReadsAlike q) (carries : p.Carries id given) :
    q.Carries id given where
  below := Int.lt_of_lt_of_le carries.below h.bound
  declarations r member := by
    rw [h.declarations] at member
    rw [h.declaration member]
    exact carries.declarations r member
  given r member target := by
    rw [h.annotations] at member
    rcases h.notesAlike.annotation r member with same | ⟨-, plain⟩
    · rw [same] at target ⊢
      exact carries.given r member target
    · simp [Instruction.target?, plain] at target

/-- A new variable carries nothing. -/
theorem Declared.carries (h : p.Declared q r []) (before : p.Bounded) (variable' : (q.inst r).opcode = .var) :
    q.Carries p.module.idBound [] where
  below := by
    rw [h.bound]
    exact Int.lt_succ _
  declarations s member := by
    rw [h.adds.declarations] at member
    rcases List.mem_append.mp member with old | new
    · rw [h.adds.global s (List.mem_of_mem_filter old)]
      exact Int.ne_of_lt (before.ids s old).2
    · obtain ⟨here, declares⟩ := List.mem_filter.mp new
      obtain rfl := List.mem_singleton.mp here
      rw [variable'] at declares
      cases declares
  given s member target := by
    rw [h.adds.annotations, List.append_nil] at member
    rw [h.adds.note s member] at target
    exact absurd (before.targets s member _ target) (Int.lt_irrefl _)

theorem Carries.noted {id : Id} {given : List Decoration} {d : Decoration} (h : p.Carries id given)
    (adds : p.Adds q [] [r]) (bound : p.module.idBound ≤ q.module.idBound) (values : (q.inst r).valuesFrom 1 = d) :
    q.Carries id (d :: given) where
  below := Int.lt_of_lt_of_le h.below bound
  declarations s member := by
    rw [adds.declarations] at member
    have old : s ∈ p.declarations := by simpa using member
    rw [adds.global s (List.mem_of_mem_filter old)]
    exact h.declarations s old
  given s member target := by
    rw [adds.annotations] at member
    rcases List.mem_append.mp member with old | new
    · rw [adds.note s old] at target ⊢
      exact List.mem_cons_of_mem _ (h.given s old target)
    · obtain rfl := List.mem_singleton.mp new
      rw [values]
      exact List.mem_cons_self ..

/-- Annotations of an id that is no type's. -/
theorem Adds.tables (h : p.Adds q [] notes) (annotated : Annotations.ofProgram q = .ok a)
    (elsewhere : ∀ s ∈ p.declarations, ∀ n ∈ notes, (q.inst n).target? ≠ some (.int (p.inst s).resultId)) :
    q.typeTable = p.typeTable ∧ q.constantTable = p.constantTable := by
  have types : q.typeTable = p.typeTable := (h.typeTable annotated elsewhere).trans (bind_pure _)
  refine ⟨types, ?_⟩
  unfold constantTable
  rw [types, h.typesValues, List.append_nil]
  congr 1
  funext t
  refine congrArg Except.ok (List.foldl_ext _ _ _ fun c s member => ?_)
  simp only [Workspace.readConstant, h.global s member]

theorem Adds.bounded (h : p.Adds q [] notes) (before : p.Bounded) (held : q.GlobalsHeld)
    (bound : p.module.idBound ≤ q.module.idBound)
    (targets : ∀ n ∈ notes, ∀ id, (q.inst n).target? = some (.int id) → id < q.module.idBound) : q.Bounded := by
  have typesValues : q.module.typesValues = p.module.typesValues := h.typesValues.trans (List.append_nil _)
  have declarations : q.declarations = p.declarations := h.declarations.trans (List.append_nil _)
  have same {s : InstRef} (member : s ∈ p.declarations) : q.inst s = p.inst s :=
    h.global s (List.mem_of_mem_filter member)
  refine ⟨held, ?_, ?_, ?_, ?_⟩
  · rw [declarations, List.map_congr_left fun s member => by rw [same member]]
    exact before.distinct
  · intro s member
    rw [declarations] at member
    rw [same member]
    exact (before.ids s member).imp_right fun below => Int.lt_of_lt_of_le below bound
  · intro s member
    rw [typesValues] at member
    rw [h.global s member]
    exact fun constant typed => Int.lt_of_lt_of_le (before.typed s member constant typed) bound
  · intro n member id found
    rw [h.annotations] at member
    -- Only annotations are added, so only their targets are new to the bound.
    rcases List.mem_append.mp member with old | new
    · rw [h.note n old] at found
      exact Int.lt_of_lt_of_le (before.targets n old id found) bound
    · exact targets n new id found

end Program

end BlockTally
