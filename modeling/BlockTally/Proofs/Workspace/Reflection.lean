import BlockTally.Proofs.Workspace.RoundTrip

/-! What the tables of types and constants say of the program.

In a table that reflects a program every id is declared by an instruction that describes the type under which it is
known, and a type is known under the id that it is handed out with. The instruction stays as it is for good.
-/

set_option autoImplicit false

namespace BlockTally

/-! ### Descriptions -/

/-- An instruction describes a type, as far as the ids that it refers to were known when it was read. -/
def Ty.Describes (known : Value → Option Ty) (i : Instruction) (ty : Ty) : Prop :=
  ∃ seen : Value → Option Ty, (∀ v component, seen v = some component → known v = some component) ∧
    ∃ plain, ofInstruction seen i = .ok plain ∧
      ∃ own members ty', plain.decorated own members = .ok ty' ∧ ty'.key = ty.key

theorem Ty.Describes.mono {known known' : Value → Option Ty} {i : Instruction} {ty : Ty} (h : Describes known i ty)
    (more : ∀ v component, known v = some component → known' v = some component) : Describes known' i ty := by
  obtain ⟨seen, known, rest⟩ := h
  exact ⟨seen, fun v component found => more v component (known v component found), rest⟩

theorem Ty.Spells.describes {known : Value → Option Ty} {declaration : Opcode × List Operand} {ty : Ty}
    (h : Spells known declaration ty) (id : Id) :
    Describes known { opcode := declaration.1, resultId := id, operands := declaration.2 } ty := by
  obtain ⟨plain, read, ty', decorated, -, same⟩ := h.reads id
  exact ⟨known, fun _ _ found => found, plain, read, _, _, ty', decorated, same⟩

namespace Program

/-- The instruction is declared, and no operand is ever added to it. -/
def Fixes (p : Program) (i : Instruction) : Prop :=
  ∃ r ∈ p.module.typesValues, p.Holds r ∧ r ∉ p.module.entryPoints ∧ p.inst r = i

variable {p q : Program} {i : Instruction}

theorem Fixes.declares (h : p.Fixes i) : p.Declares i := by
  obtain ⟨r, member, -, -, same⟩ := h
  exact ⟨r, member, same⟩

theorem Fixes.of_grows (h : p.Fixes i) (grows : p.Grows q) : q.Fixes i := by
  obtain ⟨r, member, held, plain, rfl⟩ := h
  refine ⟨r, grows.module.mem_typesValues member, grows.holds held, ?_, grows.inst held plain⟩
  rw [grows.module.entryPoints]
  exact plain

theorem fixes_declared (i : Instruction) (entries : ∀ r ∈ p.module.entryPoints, p.Holds r) :
    (p.declared i).Fixes i := by
  refine ⟨_, p.mem_declared i, ?_, fun entry => ?_, p.inst_declared i⟩
  · exact Nat.lt_of_lt_of_eq (Nat.lt_succ_self _) (p.nextBound.size_made i).symm
  · exact Nat.lt_irrefl _ (entries _ entry)

def FixesConstant (p : Program) (known : Value → Option Ty) (id : Id) (ty : Ty) (value : Value) : Prop :=
  ∃ i, p.Fixes i ∧ i.opcode = .constant ∧ i.resultId = id ∧ i.operands.map Operand.value = [value] ∧
    Ty.KnownAs known i.typeId ty

theorem FixesConstant.later {known known' : Value → Option Ty} {id : Id} {ty : Ty} {value : Value}
    (h : p.FixesConstant known id ty value) (grows : p.Grows q)
    (more : ∀ v component, known v = some component → known' v = some component) :
    q.FixesConstant known' id ty value := by
  obtain ⟨i, fixed, constant, result, values, ty', found, same⟩ := h
  exact ⟨i, fixed.of_grows grows, constant, result, values, ty', more _ _ found, same⟩

theorem FixesConstant.congr {p : Program} {known : Value → Option Ty} {id : Id} {ty ty' : Ty} {value : Value}
    (h : p.FixesConstant known id ty value) (same : ty.key = ty'.key) : p.FixesConstant known id ty' value := by
  obtain ⟨i, fixed, constant, result, values, other, found, key⟩ := h
  exact ⟨i, fixed, constant, result, values, other, found, key.trans same⟩

/-! What is put into a block declares nothing. -/

section Insertion
variable {p : Program} {b : BlockRef} {gap : Nat} {refs : List InstRef}

@[simp] theorem fixes_inserted {i : Instruction} : (p.inserted b gap refs).Fixes i ↔ p.Fixes i := by
  simp only [Fixes, module_inserted, inst_inserted, holds_inserted]

@[simp] theorem fixesConstant_inserted {known : Value → Option Ty} {id : Id} {ty : Ty} {value : Value} :
    (p.inserted b gap refs).FixesConstant known id ty value ↔ p.FixesConstant known id ty value := by
  simp only [FixesConstant, fixes_inserted]

end Insertion

end Program

/-! ### Tables -/

/-- The table knows what is declared, each type under an id that is not 0, and an unsigned integer type under no
other id than the one that is handed out. -/
structure TypeTable.Reflects (t : TypeTable) (p : Program) : Prop where
  declared : ∀ v ty, t.type? v = some ty → ∃ i, p.Fixes i ∧ v = .int i.resultId ∧ Ty.Describes t.type? i ty
  numbered : ∀ key entry, t.byType.get? key = some entry → entry.id ≠ 0
  found : ∀ v ty, t.type? v = some ty → t.byType.get? ty.key ≠ none
  unsigned : ∀ v width ds, t.type? v = some (.atom (.integer width false) ds) →
    v = .int (t.id (.atom (.integer width false) ds))

def ConstantTable.Reflects (c : ConstantTable) (p : Program) (known : Value → Option Ty) : Prop :=
  ∀ ty value id, c.id? ty value = some id → p.FixesConstant known id ty value

namespace TypeTable

variable {t : TypeTable} {p q : Program}

theorem get?_byType_register (t : TypeTable) (id : Id) (ty key : Ty) : (t.register id ty).byType.get? key =
    if ty.key = key then some ((t.byType.get? ty.key).getD ⟨ty, id⟩) else t.byType.get? key := by
  simp only [register, Table.get?_setIfNew]

/-- Every known type is found, also after one more was registered. -/
theorem found_register {id : Id} {ty : Ty} (h : ∀ v other, t.type? v = some other → t.byType.get? other.key ≠ none) :
    ∀ v other, (t.register id ty).type? v = some other → (t.register id ty).byType.get? other.key ≠ none := by
  intro v other known
  rw [type?_register] at known
  rw [get?_byType_register]
  split
  · exact Option.some_ne_none _
  next differ =>
    split at known
    · exact absurd (congrArg Ty.key (Option.some.inj known)) differ
    · exact h v other known

theorem Reflects.of_grows (h : t.Reflects p) (grows : p.Grows q) : t.Reflects q where
  declared v ty found := by
    obtain ⟨i, fixed, rest⟩ := h.declared v ty found
    exact ⟨i, fixed.of_grows grows, rest⟩
  numbered := h.numbered
  found := h.found
  unsigned := h.unsigned

theorem Reflects.inserted (h : t.Reflects p) (b : BlockRef) (gap : Nat) (refs : List InstRef) :
    t.Reflects (p.inserted b gap refs) where
  declared v ty found := by
    simp only [Program.fixes_inserted]
    exact h.declared v ty found
  numbered := h.numbered
  found := h.found
  unsigned := h.unsigned

/-- A type that has no id yet is registered under a new one. -/
theorem Reflects.register (h : t.Reflects p) {i : Instruction} {ty : Ty} (nonzero : i.resultId ≠ 0)
    (fresh : t.type? (.int i.resultId) = none) (absent : t.byType.get? ty.key = none) (fixed : p.Fixes i)
    (describes : Ty.Describes t.type? i ty) : (t.register i.resultId ty).Reflects p := by
  have later := (TypeTable.Extends.register fresh : t.Extends ty.size (t.register i.resultId ty)).types
  -- A type that was known is not the new one.
  have apart {v : Value} {other : Ty} (known : t.type? v = some other) : ty.key ≠ other.key := by
    intro same
    rw [same] at absent
    exact h.found v other known absent
  constructor
  case declared =>
    intro v other known
    rw [type?_register] at known
    split at known
    next here =>
      obtain rfl := Option.some.inj known
      exact ⟨i, fixed, here.symm, describes.mono later⟩
    next =>
      obtain ⟨j, fixed', result, describes'⟩ := h.declared v other known
      exact ⟨j, fixed', result, describes'.mono later⟩
  case numbered =>
    intro key entry found
    rw [get?_byType_register] at found
    split at found
    · obtain rfl := Option.some.inj found
      rw [absent]
      exact nonzero
    · exact h.numbered key entry found
  case found => exact found_register h.found
  case unsigned =>
    intro v width ds known
    rw [type?_register] at known
    unfold TypeTable.id
    rw [get?_byType_register]
    split at known
    next here =>
      obtain rfl := Option.some.inj known
      rw [if_pos rfl, absent]
      exact here.symm
    next =>
      rw [if_neg (apart known)]
      exact h.unsigned v width ds known

end TypeTable

namespace ConstantTable.Reflects

variable {c : ConstantTable} {p q : Program} {known known' : Value → Option Ty}

theorem later (h : c.Reflects p known) (grows : p.Grows q)
    (more : ∀ v component, known v = some component → known' v = some component) : c.Reflects q known' :=
  fun ty value id found => (h ty value id found).later grows more

theorem register (h : c.Reflects p known) {ty : Ty} {value : Value} {id : Id}
    (fixed : p.FixesConstant known id ty value) : (c.register ty value id).Reflects p known := by
  intro ty' value' id' found
  rw [ConstantTable.id?_register] at found
  split at found
  next same =>
    obtain ⟨key, rfl⟩ := Prod.mk.inj same
    obtain rfl := Option.some.inj found
    -- The constant that was registered first is the one that is handed out.
    cases first : c.id? ty value with
    | none => exact fixed.congr key
    | some id' => exact (h ty value id' first).congr key
  next => exact h ty' value' id' found

end ConstantTable.Reflects

/-! ### Readings -/

namespace Program

variable {p : Program} {t : TypeTable}

def UnsignedDistinct (p : Program) : Prop :=
  ∀ t, p.typeTable = .ok t → ∀ v v' width ds, t.type? v = some (.atom (.integer width false) ds) →
    t.type? v' = some (.atom (.integer width false) ds) → v = v'

/-- A fresh reading hands out an id for every type that it knows. -/
theorem found_of_typeTable (distinct : (p.idsOf p.declarations).Nodup) (read : p.typeTable = .ok t) :
    ∀ v ty, t.type? v = some ty → t.byType.get? ty.key ≠ none := by
  refine typeTable_induction (fun _ t => ∀ v ty, t.type? v = some ty → t.byType.get? ty.key ≠ none) distinct read nofun
    fun done r rest t ty _ held _ _ => ?_
  exact TypeTable.found_register held

/-- A fresh reading knows what is declared. -/
theorem declared_of_typeTable (distinct : (p.idsOf p.declarations).Nodup) (numbered : p.TypesNumbered)
    (fixed : ∀ r ∈ p.declarations, p.Fixes (p.inst r)) (read : p.typeTable = .ok t) : ∀ v ty, t.type? v = some ty →
      ∃ i, p.Fixes i ∧ v = .int i.resultId ∧ Ty.Describes t.type? i ty := by
  refine typeTable_induction (fun _ t => ∀ v ty, t.type? v = some ty →
    ∃ i, p.Fixes i ∧ v = .int i.resultId ∧ Ty.Describes t.type? i ty) distinct read nofun
    fun done r rest t ty split held fresh described v other known => ?_
  obtain ⟨a, plain, -, declared, decorated⟩ := described
  have new := fresh (numbered r (by simp [split]))
  -- What was known stays known, for the id of the declaration is new.
  have later := (TypeTable.Extends.register new : t.Extends ty.size (t.register (p.inst r).resultId ty)).types
  rw [TypeTable.type?_register] at known
  split at known
  next here =>
    obtain rfl := Option.some.inj known
    exact ⟨_, fixed r (by simp [split]), here.symm, t.type?, later, plain, declared, _, _, _, decorated, rfl⟩
  next =>
    obtain ⟨i, fixed, result, describes⟩ := held v other known
    exact ⟨i, fixed, result, describes.mono later⟩

/-- A fresh reading of a module whose types are numbered reflects it. -/
theorem reflects_of_typeTable (distinct : (p.idsOf p.declarations).Nodup) (numbered : p.TypesNumbered)
    (unsigned : p.UnsignedDistinct) (fixed : ∀ r ∈ p.declarations, p.Fixes (p.inst r)) (read : p.typeTable = .ok t) :
    t.Reflects p := by
  have handed := numbered_of_typeTable distinct numbered read
  have found := found_of_typeTable distinct read
  refine ⟨declared_of_typeTable distinct numbered fixed read, handed, found, fun v width ds known => ?_⟩
  obtain ⟨entry, among⟩ := Option.ne_none_iff_exists'.mp (found v _ known)
  have same : t.id (.atom (.integer width false) ds) = entry.id := by simp only [TypeTable.id, among]; rfl
  obtain ⟨-, ty, type, key⟩ := (sound_of_typeTable distinct read).of_id (same ▸ handed _ _ among)
  obtain rfl := Ty.eq_atom_of_key key
  exact unsigned t read _ _ width ds known type

/-- Constants of a fresh reading are those of the module. -/
theorem reflects_of_readConstants
    (fixed : ∀ r ∈ p.module.typesValues, (p.inst r).opcode = .constant → p.Fixes (p.inst r)) (t : TypeTable) :
    (p.module.typesValues.foldl (Workspace.readConstant p t) {}).Reflects p t.type? := by
  have step (refs : List InstRef) (c : ConstantTable) (part : ∀ r ∈ refs, r ∈ p.module.typesValues)
      (held : c.Reflects p t.type?) : (refs.foldl (Workspace.readConstant p t) c).Reflects p t.type? := by
    induction refs generalizing c with
    | nil => exact held
    | cons r rest ih =>
      rw [List.forall_mem_cons] at part
      refine ih _ part.2 ?_
      unfold Workspace.readConstant
      dsimp only
      split
      next ty operand found operands =>
        split
        next constant =>
          exact held.register ⟨p.inst r, fixed r part.1 constant, constant, rfl, by rw [operands]; rfl, ty, found, rfl⟩
        · exact held
      · exact held
  exact step _ _ (fun _ member => member) nofun

end Program

end BlockTally
