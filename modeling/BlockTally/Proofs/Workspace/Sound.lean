import BlockTally.Proofs.Program.Linked
import BlockTally.Workspace.Constants

/-! Sound workspaces.

In a sound workspace the tables of types and constants agree with the declarations of the program: what
is found in them is declared. Ids that were taken and not yet used up are counted as pending.
-/

set_option autoImplicit false

namespace BlockTally

namespace Program

def Declares (p : Program) (i : Instruction) : Prop :=
  ∃ r ∈ p.module.typesValues, p.inst r = i

def HasConstant (p : Program) (id : Id) (value : Value) : Prop :=
  ∃ i, p.Declares i ∧ i.opcode = .constant ∧ i.resultId = id ∧ i.operands.map Operand.value = [value]

def HasBuffer (p : Program) (id : Id) : Prop :=
  ∃ i, p.Declares i ∧ i.opcode = .var ∧ i.resultId = id ∧
    i.operands.map Operand.value = [.int StorageClass.storageBuffer]

def ConstantsNumbered (p : Program) : Prop :=
  ∀ r ∈ p.module.typesValues, (p.inst r).opcode = .constant → (p.inst r).resultId ≠ 0

instance (p : Program) : Decidable p.ConstantsNumbered :=
  inferInstanceAs (Decidable (∀ r ∈ p.module.typesValues, _))

/-- The program grows outside of its blocks. -/
structure Extends (p q : Program) : Prop extends p.Grows q where
  blocks : q.blocks = p.blocks

namespace Extends

theorem refl (p : Program) : p.Extends p :=
  ⟨.refl p, rfl⟩

theorem trans {p q o : Program} (first : p.Extends q) (second : q.Extends o) : p.Extends o :=
  ⟨first.toGrows.trans second.toGrows, second.blocks.trans first.blocks⟩

theorem block {p q : Program} (h : p.Extends q) (b : BlockRef) : q.block b = p.block b := by
  simp only [Program.block, h.blocks]

end Extends

variable {p q : Program} {pending : List Id}

theorem Declares.defines {i : Instruction} (known : p.Declares i) (result : i.resultId ≠ 0) :
    p.Defines (.int i.resultId) := by
  obtain ⟨r, member, rfl⟩ := known
  exact defines_of_mem (mem_allInsts_of_list .typesValues member) result

theorem Linked.declares_of_grows (linked : p.Linked pending) (h : p.Grows q) {i : Instruction}
    (known : p.Declares i) (result : i.resultId ≠ 0) : q.Declares i := by
  obtain ⟨r, member, rfl⟩ := known
  have held := linked.closed r (mem_allInsts_of_list .typesValues member)
  exact ⟨r, h.module.mem_typesValues member, h.inst held (linked.not_entryPoint member result)⟩

theorem ConstantsNumbered.result (h : p.ConstantsNumbered) {i : Instruction} (known : p.Declares i)
    (constant : i.opcode = .constant) : i.resultId ≠ 0 := by
  obtain ⟨r, member, rfl⟩ := known
  exact h r member constant

theorem HasConstant.ne_zero {id : Id} {value : Value} (h : p.HasConstant id value)
    (numbered : p.ConstantsNumbered) : id ≠ 0 := by
  obtain ⟨i, known, constant, rfl, -⟩ := h
  exact numbered.result known constant

theorem Linked.hasConstant_of_grows (linked : p.Linked pending) (h : p.Grows q)
    (numbered : p.ConstantsNumbered) {id : Id} {value : Value} (known : p.HasConstant id value) :
    q.HasConstant id value := by
  obtain ⟨i, declared, constant, same, values⟩ := known
  have result := numbered.result declared constant
  exact ⟨i, linked.declares_of_grows h declared result, constant, same, values⟩

theorem HasBuffer.defines {id : Id} (h : p.HasBuffer id) (result : id ≠ 0) : p.Defines (.int id) := by
  obtain ⟨i, declared, -, rfl, -⟩ := h
  exact declared.defines result

theorem HasConstant.defines {id : Id} {value : Value} (h : p.HasConstant id value)
    (numbered : p.ConstantsNumbered) : p.Defines (.int id) := by
  have result := h.ne_zero numbered
  obtain ⟨i, declared, -, rfl, -⟩ := h
  exact declared.defines result

theorem Linked.hasBuffer_of_grows (linked : p.Linked pending) (h : p.Grows q) {id : Id} (result : id ≠ 0)
    (known : p.HasBuffer id) : q.HasBuffer id := by
  obtain ⟨i, declared, variable', rfl, values⟩ := known
  exact ⟨i, linked.declares_of_grows h declared result, variable', rfl, values⟩

/-- Constants stay numbered when those that are added are. -/
theorem Linked.numbered_of_grows (linked : p.Linked pending) (h : p.Grows q) (numbered : p.ConstantsNumbered)
    (new : ∀ r ∈ q.module.typesValues, r ∉ p.module.typesValues → (q.inst r).opcode = .constant →
      (q.inst r).resultId ≠ 0) : q.ConstantsNumbered := by
  intro r member constant
  by_cases old : r ∈ p.module.typesValues
  · have held := linked.closed r (mem_allInsts_of_list .typesValues old)
    rw [h.opcode held] at constant
    rw [h.resultId held]
    exact numbered r old constant
  · exact new r member old constant

/-! ### Insertions

What is put into a block declares nothing. -/

section Insertion
variable {b : BlockRef} {gap : Nat} {refs : List InstRef}

@[simp] theorem declares_inserted {i : Instruction} : (p.inserted b gap refs).Declares i ↔ p.Declares i := by
  simp only [Declares, module_inserted, inst_inserted]

@[simp] theorem hasConstant_inserted {id : Id} {value : Value} :
    (p.inserted b gap refs).HasConstant id value ↔ p.HasConstant id value := by
  simp only [HasConstant, declares_inserted]

@[simp] theorem hasBuffer_inserted {id : Id} : (p.inserted b gap refs).HasBuffer id ↔ p.HasBuffer id := by
  simp only [HasBuffer, declares_inserted]

@[simp] theorem constantsNumbered_inserted :
    (p.inserted b gap refs).ConstantsNumbered ↔ p.ConstantsNumbered := by
  simp only [ConstantsNumbered, module_inserted, inst_inserted]

end Insertion

end Program

/-! ### Tables -/

/-- Types are found under ids that are known, and what is found under an id is the type asked for. -/
structure TypeTable.Sound (t : TypeTable) (known : Id → Prop) : Prop where
  entries : ∀ key entry, t.byType.get? key = some entry → entry.id ≠ 0 →
    ∃ ty, t.type? (.int entry.id) = some ty ∧ ty.key = key
  ids : ∀ id ty, t.type? (.int id) = some ty → id ≠ 0 → known id

def ConstantTable.Sound (t : ConstantTable) (p : Program) : Prop :=
  ∀ key value entry, t.byValue.get? (key, value) = some entry → p.HasConstant entry.id value

namespace TypeTable.Sound

theorem empty (known : Id → Prop) : TypeTable.Sound {} known :=
  ⟨nofun, nofun⟩

variable {t : TypeTable} {known : Id → Prop}

theorem mono {known' : Id → Prop} (h : t.Sound known) (more : ∀ id, id ≠ 0 → known id → known' id) :
    t.Sound known' where
  entries := h.entries
  ids id ty found result := more id result (h.ids id ty found result)

/-- A type may be registered for a new id. -/
theorem register (h : t.Sound known) {id : Id} (ty : Ty) (fresh : id ≠ 0 → t.type? (.int id) = none) :
    (t.register id ty).Sound fun other => known other ∨ other = id where
  entries key entry found result := by
    simp only [TypeTable.register, Table.get?_setIfNew] at found
    simp only [TypeTable.register, TypeTable.type?, Table.get?_set]
    split at found
    -- The first id of a type stays the one that is handed out.
    next same =>
      cases old : t.byType.get? ty.key with
      | none =>
        obtain rfl : entry = ⟨ty, id⟩ := by simpa [old] using found.symm
        exact ⟨ty, by simp, same⟩
      | some first =>
        obtain rfl : first = entry := by simpa [old] using found
        obtain ⟨ty', type, key'⟩ := h.entries _ _ old result
        rw [if_neg]
        · exact ⟨ty', type, key'.trans same⟩
        rintro ⟨⟩
        exact absurd type (by simp [fresh result])
    next =>
      obtain ⟨ty', type, key'⟩ := h.entries _ _ found result
      rw [if_neg]
      · exact ⟨ty', type, key'⟩
      rintro ⟨⟩
      exact absurd type (by simp [fresh result])
  ids other ty' found result := by
    simp only [TypeTable.register, TypeTable.type?, Table.get?_set] at found
    split at found
    next same =>
      cases same
      exact .inr rfl
    next => exact .inl (h.ids other ty' found result)

section Reading
variable {p : Program} {done rest : List InstRef} {r : InstRef}

/-- Declarations have ids of their own, so the next one is not known from those that were read before. -/
theorem fresh (h : t.Sound (· ∈ p.idsOf done)) (distinct : (p.idsOf (done ++ r :: rest)).Nodup)
    (result : (p.inst r).resultId ≠ 0) : t.type? (.int (p.inst r).resultId) = none := by
  by_contra found
  obtain ⟨ty, found⟩ := Option.ne_none_iff_exists'.mp found
  exact Program.not_mem_idsOf result distinct (h.ids _ ty found result)

/-- Types that are read one after the other have the ids of their declarations. -/
theorem next (h : t.Sound (· ∈ p.idsOf done)) (distinct : (p.idsOf (done ++ r :: rest)).Nodup) (ty : Ty) :
    (t.register (p.inst r).resultId ty).Sound (· ∈ p.idsOf (done ++ [r])) := by
  refine (h.register ty (h.fresh distinct)).mono fun id result known => ?_
  rw [Program.idsOf_append]
  rcases known with earlier | rfl
  · exact List.mem_append_left _ earlier
  · exact List.mem_append_right _ (Program.mem_idsOf.mpr ⟨r, List.mem_singleton_self r, rfl, result⟩)

end Reading

/-- A type that the table has an id for is known under it. -/
theorem of_id (h : t.Sound known) {ty : Ty} (result : t.id ty ≠ 0) :
    known (t.id ty) ∧ ∃ ty', t.type? (.int (t.id ty)) = some ty' ∧ ty'.key = ty.key := by
  unfold TypeTable.id at *
  cases found : t.byType.get? ty.key with
  | none => simp [found] at result
  | some entry =>
    simp only [found, Option.map_some, Option.getD_some] at result ⊢
    obtain ⟨ty', type, key⟩ := h.entries _ _ found result
    exact ⟨h.ids _ _ type result, ty', type, key⟩

end TypeTable.Sound

namespace ConstantTable.Sound

theorem empty (p : Program) : ConstantTable.Sound {} p :=
  nofun

variable {t : ConstantTable} {p : Program}

theorem register (h : t.Sound p) (ty : Ty) {value : Value} {id : Id} (known : p.HasConstant id value) :
    (t.register ty value id).Sound p := by
  intro key value' entry found
  simp only [ConstantTable.register, Table.get?_setIfNew] at found
  split at found
  next same =>
    cases old : t.byValue.get? (ty.key, value) with
    | none =>
      obtain rfl : entry = ⟨ty, id⟩ := by simpa [old] using found.symm
      cases same
      exact known
    | some first =>
      obtain rfl : first = entry := by simpa [old] using found
      cases same
      exact h _ _ _ old
  next => exact h _ _ _ found

theorem of_id (h : t.Sound p) {ty : Ty} {value : Value} {id : Id} (found : t.id? ty value = some id) :
    p.HasConstant id value := by
  unfold ConstantTable.id? at found
  obtain ⟨entry, among, rfl⟩ := Option.map_eq_some_iff.mp found
  exact h _ _ _ among

end ConstantTable.Sound

/-! ### Workspaces -/

namespace Workspace

structure Sound (w : Workspace) (pending : List Id) : Prop where
  linked : w.program.Linked pending
  numbered : w.program.ConstantsNumbered
  types : ∀ t, w.facts.types = some t → t.Sound fun id => w.program.Defines (.int id)
  constants : ∀ t, w.facts.constants = some t → t.Sound w.program

def Knows (w : Workspace) (id : Id) (ty : Ty) : Prop :=
  w.program.Defines (.int id) ∧
    ∃ t ty', w.facts.types = some t ∧ t.type? (.int id) = some ty' ∧ ty'.key = ty.key

/-- Only the program and the two tables matter. -/
theorem Sound.congr {w w' : Workspace} {pending : List Id} (h : w.Sound pending)
    (program : w'.program = w.program) (types : w'.facts.types = w.facts.types)
    (constants : w'.facts.constants = w.facts.constants) : w'.Sound pending where
  linked := program ▸ h.linked
  numbered := program ▸ h.numbered
  types t found := by
    rw [program]
    exact h.types t (types ▸ found)
  constants t found := by
    rw [program]
    exact h.constants t (constants ▸ found)

/-- Tables stay sound when the program grows outside of its blocks. -/
theorem Sound.extend {w w' : Workspace} {pending pending' : List Id} (h : w.Sound pending)
    (extended : w.program.Extends w'.program) (types : w'.facts.types = w.facts.types)
    (constants : w'.facts.constants = w.facts.constants) (linked : w'.program.Linked pending')
    (new : ∀ r ∈ w'.program.module.typesValues, r ∉ w.program.module.typesValues →
      (w'.program.inst r).opcode = .constant → (w'.program.inst r).resultId ≠ 0) : w'.Sound pending' where
  linked := linked
  numbered := h.linked.numbered_of_grows extended.toGrows h.numbered new
  types t found := by
    rw [types] at found
    exact (h.types t found).mono fun id _ known =>
      h.linked.defines_of_grows extended.toGrows extended.blocks known
  constants t found key value entry among := by
    rw [constants] at found
    exact h.linked.hasConstant_of_grows extended.toGrows h.numbered (h.constants t found key value entry among)

theorem Sound.give_up {w : Workspace} (more : List Id) {pending : List Id} (h : w.Sound (more ++ pending)) :
    w.Sound pending where
  linked := h.linked.give_up more
  numbered := h.numbered
  types := h.types
  constants := h.constants

def inserted (w : Workspace) (b : BlockRef) (gap : Nat) (refs : List InstRef) : Workspace :=
  { w with program := w.program.inserted b gap refs }

theorem Sound.inserted {w : Workspace} {pending : List Id} {b : BlockRef} {refs : List InstRef} (gap : Nat)
    (h : w.Sound (w.program.idsOf refs ++ pending)) (old : b.index < w.program.blocks.size)
    (member : b ∈ w.program.listedBlocks) (labeled : w.program.blockId b ≠ 0)
    (held : ∀ r ∈ refs, w.program.Holds r) (uses : ∀ r ∈ refs, ∀ v ∈ (w.program.inst r).usedIds,
      w.program.Defines v ∨ ∃ id ∈ w.program.idsOf refs, v = .int id) : (w.inserted b gap refs).Sound pending where
  linked := Program.Linked.inserted old member labeled h.linked held uses
  numbered := Program.constantsNumbered_inserted.mpr h.numbered
  types t found := by
    have distinct := (List.nodup_append.mp h.linked.distinct).1
    exact (h.types t found).mono fun id _ known => Program.defines_inserted old member labeled distinct known
  constants t found key value entry among := by
    have known := h.constants t found key value entry among
    exact Program.hasConstant_inserted.mpr known

end Workspace

end BlockTally
