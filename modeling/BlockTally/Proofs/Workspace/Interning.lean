import BlockTally.Proofs.Ty.Spelling
import BlockTally.Proofs.Workspace.TypeRequests
import BlockTally.Proofs.Workspace.Attaching
import BlockTally.Proofs.Workspace.Sound
import BlockTally.Workspace.Constants

/-! Requests and what a fresh reading makes of their answers.

A request for a type or a constant answers with an id under which a fresh reading of the module finds what was asked
for. Later requests do not change that: they only declare what was not there, under ids that nothing refers to yet.
-/

set_option autoImplicit false

namespace BlockTally

/-! ### Sizes of types

A type is larger than its components, so that it is not declared along with them. -/

namespace Ty

mutual

def size : Ty → Nat
  | .atom .. => 1
  | .wrap _ component _ => size component + 1
  | .struct members _ _ => sizes members + 1
  | .function result parameters _ => size result + sizes parameters + 1

def sizes : List Ty → Nat
  | [] => 0
  | ty :: rest => size ty + sizes rest

end

mutual

theorem size_key : (ty : Ty) → ty.key.size = ty.size
  | .atom .. => by simp only [key]
  | .wrap _ component _ => by simp only [key, size, size_key component]
  | .struct members _ _ => by simp only [key, size, sizes_keys members]
  | .function result parameters _ => by simp only [key, size, size_key result, sizes_keys parameters]

theorem sizes_keys : (tys : List Ty) → sizes (keys tys) = sizes tys
  | [] => rfl
  | ty :: rest => by simp only [keys, sizes, size_key ty, sizes_keys rest]

end

end Ty

/-! ### Tables that grow -/

/-- The second table knows more types, none of them larger than the size. -/
structure TypeTable.Extends (size : Nat) (t t' : TypeTable) : Prop where
  types : ∀ v ty, t.type? v = some ty → t'.type? v = some ty
  ids : ∀ key entry, t.byType.get? key = some entry → t'.byType.get? key = some entry
  small : ∀ key entry, t'.byType.get? key = some entry → t.byType.get? key = some entry ∨ key.size ≤ size

namespace TypeTable.Extends

theorem refl (size : Nat) (t : TypeTable) : t.Extends size t :=
  ⟨fun _ _ found => found, fun _ _ found => found, fun _ _ => .inl⟩

theorem trans {size : Nat} {t t' t'' : TypeTable} (first : t.Extends size t') (second : t'.Extends size t'') :
    t.Extends size t'' where
  types v ty found := second.types v ty (first.types v ty found)
  ids key entry found := second.ids key entry (first.ids key entry found)
  small key entry found := (second.small key entry found).elim (first.small key entry) .inr

theorem mono {size larger : Nat} {t t' : TypeTable} (h : t.Extends size t') (le : size ≤ larger) :
    t.Extends larger t' where
  types := h.types
  ids := h.ids
  small key entry found := (h.small key entry found).imp_right fun small => Nat.le_trans small le

/-- A type that is larger was not declared. -/
theorem absent {size : Nat} {t t' : TypeTable} (h : t.Extends size t') {ty : Ty}
    (before : t.byType.get? ty.key = none) (large : size < ty.size) : t'.byType.get? ty.key = none := by
  by_contra found
  obtain ⟨entry, found⟩ := Option.ne_none_iff_exists'.mp found
  rcases h.small _ _ found with old | small
  · rw [before] at old
    cases old
  · rw [ty.size_key] at small
    exact Nat.not_lt.mpr small large

/-- A new type under a new id. -/
theorem register {t : TypeTable} {id : Id} {ty : Ty} (fresh : t.type? (.int id) = none) :
    t.Extends ty.size (t.register id ty) where
  types v other found := by
    simp only [TypeTable.register, TypeTable.type?, Table.get?_set]
    rw [if_neg]
    · exact found
    · rintro rfl
      exact absurd found (by simp [fresh])
  ids key entry found := by
    simp only [TypeTable.register, Table.get?_setIfNew]
    split
    next same => rw [same, found, Option.getD_some]
    next => exact found
  small key entry found := by
    simp only [TypeTable.register, Table.get?_setIfNew] at found
    split at found
    next same => exact .inr (Nat.le_of_eq (by rw [← same, ty.size_key]))
    next => exact .inl found

end TypeTable.Extends

/-- A table that hands out ids still does with one more type. -/
theorem TypeTable.numbered_register {t : TypeTable} {ty : Ty} {id : Id}
    (h : ∀ key entry, t.byType.get? key = some entry → entry.id ≠ 0) (nonzero : id ≠ 0) :
    ∀ key entry, (t.register id ty).byType.get? key = some entry → entry.id ≠ 0 := by
  intro key entry found
  simp only [TypeTable.register, Table.get?_setIfNew] at found
  split at found
  · cases old : t.byType.get? ty.key with
    | none =>
      obtain rfl : entry = ⟨ty, id⟩ := by simpa [old] using found.symm
      exact nonzero
    | some first =>
      obtain rfl : first = entry := by simpa [old] using found
      exact h _ _ old
  · exact h _ _ found

namespace Program

/-- A fresh reading finds more types, none of them larger than the size, and the same constants. -/
structure Later (size : Nat) (p q : Program) : Prop where
  types : ∀ t, p.typeTable = .ok t → ∃ t', q.typeTable = .ok t' ∧ t.Extends size t'
  constants : ∀ c, p.constantTable = .ok c → q.constantTable = .ok c

namespace Later

theorem refl (size : Nat) (p : Program) : p.Later size p :=
  ⟨fun t read => ⟨t, read, .refl size t⟩, fun _ read => read⟩

theorem trans {size : Nat} {p q o : Program} (first : p.Later size q) (second : q.Later size o) :
    p.Later size o where
  types t read := by
    obtain ⟨t', read', extends'⟩ := first.types t read
    obtain ⟨t'', read'', extends''⟩ := second.types t' read'
    exact ⟨t'', read'', extends'.trans extends''⟩
  constants c read := second.constants c (first.constants c read)

theorem mono {size larger : Nat} {p q : Program} (h : p.Later size q) (le : size ≤ larger) : p.Later larger q where
  types t read := by
    obtain ⟨t', read', extends'⟩ := h.types t read
    exact ⟨t', read', extends'.mono le⟩
  constants := h.constants

end Later

def Stands (p : Program) (id : Id) (ty : Ty) : Prop :=
  ∃ t, p.typeTable = .ok t ∧ id ≠ 0 ∧ t.id ty = id ∧ Ty.KnownAs t.type? id ty

theorem Stands.later {p q : Program} {size : Nat} {id : Id} {ty : Ty} (h : p.Stands id ty) (later : p.Later size q) :
    q.Stands id ty := by
  obtain ⟨t, read, nonzero, rfl, ty', found, key⟩ := h
  obtain ⟨t', read', extends'⟩ := later.types t read
  obtain ⟨entry, among, same⟩ := TypeTable.entry_of_id nonzero
  refine ⟨t', read', nonzero, ?_, ty', extends'.types _ _ found, key⟩
  rw [TypeTable.id, extends'.ids _ _ among, ← same]
  rfl

def StandsConstant (p : Program) (id : Id) (ty : Ty) (value : Value) : Prop :=
  ∃ c, p.constantTable = .ok c ∧ c.id? ty value = some id

theorem StandsConstant.later {p q : Program} {size : Nat} {id : Id} {ty : Ty} {value : Value}
    (h : p.StandsConstant id ty value) (later : p.Later size q) : q.StandsConstant id ty value := by
  obtain ⟨c, read, found⟩ := h
  exact ⟨c, later.constants c read, found⟩

/-! ### Ids below the bound -/

/-- Types have different ids below the bound, and no constant or annotation refers to an id that is still to be
taken. -/
structure Bounded (p : Program) : Prop where
  held : p.GlobalsHeld
  distinct : (p.declarations.map fun r => (p.inst r).resultId).Nodup
  ids : ∀ r ∈ p.declarations, (p.inst r).resultId ≠ 0 ∧ (p.inst r).resultId < p.module.idBound
  typed : ∀ r ∈ p.module.typesValues, (p.inst r).opcode = .constant → (p.inst r).typeId ≠ 0 →
    (p.inst r).typeId < p.module.idBound
  targets : ∀ r ∈ p.module.annotations, ∀ id, (p.inst r).target? = some (.int id) → id < p.module.idBound

/-- What holds of a fresh reading: every step registers a type, under an id that is new unless it is 0. -/
theorem typeTable_induction {p : Program} {t : TypeTable} (inv : List InstRef → TypeTable → Prop)
    (distinct : (p.idsOf p.declarations).Nodup) (read : p.typeTable = .ok t) (start : inv [] {})
    (each : ∀ done r rest t ty, p.declarations = done ++ r :: rest → inv done t →
      ((p.inst r).resultId ≠ 0 → t.type? (.int (p.inst r).resultId) = none) →
      (∃ a plain, Annotations.ofProgram p = .ok a ∧ Ty.ofInstruction t.type? (p.inst r) = .ok plain ∧
        plain.decorated (Annotations.ofType p a (.int (p.inst r).resultId)).1
          (Annotations.ofType p a (.int (p.inst r).resultId)).2 = .ok ty) →
      inv (done ++ [r]) (t.register (p.inst r).resultId ty)) : inv p.declarations t := by
  rcases typeTable_ok_iff.mp read with ⟨none, rfl⟩ | ⟨a, annotated, read⟩
  · rwa [none]
  -- The ids that are known so far are those of the declarations read so far.
  refine (except_foldlM_ok (fun done t => t.Sound (· ∈ p.idsOf done) ∧ inv done t) read
    ⟨TypeTable.Sound.empty _, start⟩ fun done r rest t t' split held step => ?_).2
  obtain ⟨sound, held⟩ := held
  obtain ⟨plain, declared, ty, decorated, -, rfl⟩ := TypeTable.read_ok_iff.mp step
  rw [split] at distinct
  exact ⟨sound.next distinct ty, each done r rest t ty split held (sound.fresh distinct)
    ⟨a, plain, annotated, declared, decorated⟩⟩

/-- The types of a fresh reading have ids of the module. -/
theorem sound_of_typeTable {p : Program} {t : TypeTable} (distinct : (p.idsOf p.declarations).Nodup)
    (read : p.typeTable = .ok t) : t.Sound (· ∈ p.idsOf p.declarations) :=
  typeTable_induction (fun done t => t.Sound (· ∈ p.idsOf done)) distinct read (TypeTable.Sound.empty _)
    fun _ _ _ _ ty split held _ _ => held.next (split ▸ distinct) ty

/-- In a module whose types are numbered, a fresh reading hands out ids. -/
theorem numbered_of_typeTable {p : Program} {t : TypeTable} (distinct : (p.idsOf p.declarations).Nodup)
    (numbered : ∀ r ∈ p.declarations, (p.inst r).resultId ≠ 0) (read : p.typeTable = .ok t) :
    ∀ key entry, t.byType.get? key = some entry → entry.id ≠ 0 := by
  refine typeTable_induction (fun _ t => ∀ key entry, t.byType.get? key = some entry → entry.id ≠ 0) distinct read
    nofun fun done r rest t ty split held _ _ => ?_
  exact TypeTable.numbered_register held (numbered r (split ▸ List.mem_append_right _ (List.mem_cons_self ..)))

/-- Types that are numbered have their result ids as own ids. -/
theorem idsOf_declarations {p : Program} (numbered : ∀ r ∈ p.declarations, (p.inst r).resultId ≠ 0) :
    p.idsOf p.declarations = p.declarations.map fun r => (p.inst r).resultId := by
  unfold idsOf
  rw [List.map_eq_flatMap]
  exact List.flatMap_congr fun r member => by simp [Instruction.ownIds, Instruction.hasResult, numbered r member]

/-- The types of a fresh reading have ids below the bound. -/
theorem Bounded.table {p : Program} (h : p.Bounded) {t : TypeTable} (read : p.typeTable = .ok t) :
    t.Sound (· < p.module.idBound) ∧ ∀ key entry, t.byType.get? key = some entry → entry.id ≠ 0 := by
  have numbered : ∀ r ∈ p.declarations, (p.inst r).resultId ≠ 0 := fun r member => (h.ids r member).1
  have distinct : (p.idsOf p.declarations).Nodup := idsOf_declarations numbered ▸ h.distinct
  refine ⟨(sound_of_typeTable distinct read).mono fun id _ known => ?_, numbered_of_typeTable distinct numbered read⟩
  obtain ⟨r, member, rfl, -⟩ := mem_idsOf.mp known
  exact (h.ids r member).2

theorem Bounded.fresh {p : Program} (h : p.Bounded) {t : TypeTable} (read : p.typeTable = .ok t)
    (nonzero : p.module.idBound ≠ 0) : t.type? (.int p.module.idBound) = none := by
  by_contra found
  obtain ⟨ty, found⟩ := Option.ne_none_iff_exists'.mp found
  exact Int.lt_irrefl _ ((h.table read).1.ids _ _ found nonzero)

/-! ### Declarations under a new id -/

/-- The second program has one more global declaration, under the id that was next, and annotations of this id. -/
structure Declared (p q : Program) (r : InstRef) (notes : List InstRef) : Prop where
  adds : p.Adds q [r] notes
  held : q.GlobalsHeld
  bound : q.module.idBound = p.module.idBound + 1
  result : (q.inst r).resultId = p.module.idBound
  nonzero : p.module.idBound ≠ 0
  typed : (q.inst r).opcode = .constant → (q.inst r).typeId ≠ 0 → (q.inst r).typeId < p.module.idBound
  targets : ∀ n ∈ notes, (q.inst n).target? = some (.int p.module.idBound)

variable {p q : Program} {r : InstRef} {notes : List InstRef} {t : TypeTable} {c : ConstantTable}

theorem GlobalsHeld.declared (h : p.GlobalsHeld) (i : Instruction) :
    p.Adds (p.declared i) [⟨p.instructions.size⟩] [] ∧ (p.declared i).GlobalsHeld := by
  have adds : p.Adds (p.declared i) [⟨p.instructions.size⟩] [] :=
    ⟨rfl, (List.append_nil _).symm, fun _ member => inst_made_of_lt i (h _ (List.mem_append_left _ member)),
      fun _ member => inst_made_of_lt i (h _ (List.mem_append_right _ member))⟩
  have size : (p.declared i).instructions.size = p.instructions.size + 1 := p.nextBound.size_made i
  refine ⟨adds, h.of_adds adds (by omega) fun s member => ?_⟩
  obtain rfl := List.mem_singleton.mp member
  exact Nat.lt_of_lt_of_eq (Nat.lt_succ_self _) size.symm

theorem Declared.bounded (h : p.Declared q r notes) (before : p.Bounded) : q.Bounded := by
  have old {s : InstRef} (member : s ∈ p.declarations) : q.inst s = p.inst s :=
    h.adds.global s (List.mem_of_mem_filter member)
  have declarations := h.adds.declarations
  refine ⟨h.held, ?_, fun s member => ?_, fun s member => ?_, fun n member id found => ?_⟩
  · rw [declarations, List.map_append, List.nodup_append, List.map_congr_left fun s member => by rw [old member]]
    refine ⟨before.distinct, List.Pairwise.sublist (List.filter_sublist.map _) (List.pairwise_singleton _ _), ?_⟩
    intro id first id' second same
    obtain ⟨s, member, rfl⟩ := List.mem_map.mp first
    obtain ⟨s', member', rfl⟩ := List.mem_map.mp second
    obtain rfl := List.mem_singleton.mp (List.mem_of_mem_filter member')
    -- The new id was the bound, and the ids before are below it.
    have below := (before.ids s member).2
    rw [same, h.result] at below
    exact Int.lt_irrefl _ below
  · rw [declarations] at member
    rcases List.mem_append.mp member with first | last
    · have below := before.ids s first
      rw [old first, h.bound]
      exact ⟨below.1, Int.lt_trans below.2 (Int.lt_succ _)⟩
    · obtain rfl := List.mem_singleton.mp (List.mem_of_mem_filter last)
      rw [h.result, h.bound]
      exact ⟨h.nonzero, Int.lt_succ _⟩
  · rw [h.adds.typesValues] at member
    rw [h.bound]
    intro constant typed
    rcases List.mem_append.mp member with first | last
    · rw [h.adds.global s first] at constant typed ⊢
      exact Int.lt_trans (before.typed s first constant typed) (Int.lt_succ _)
    · obtain rfl := List.mem_singleton.mp last
      exact Int.lt_trans (h.typed constant typed) (Int.lt_succ _)
  · rw [h.adds.annotations] at member
    rw [h.bound]
    rcases List.mem_append.mp member with first | last
    · rw [h.adds.note n first] at found
      exact Int.lt_trans (before.targets n first id found) (Int.lt_succ _)
    · rw [h.targets n last] at found
      obtain rfl : p.module.idBound = id := by simpa using found
      exact Int.lt_succ _

theorem readConstant_of_ne (t : TypeTable) (c : ConstantTable) (other : (p.inst r).opcode ≠ .constant) :
    Workspace.readConstant p t c r = c := by
  unfold Workspace.readConstant
  dsimp only
  split
  · exact if_neg other
  · rfl

/-- A new type stands for itself. -/
theorem stands_register {ty ty' : Ty} {id : Id} (read : q.typeTable = .ok (t.register id ty')) (nonzero : id ≠ 0)
    (absent : t.byType.get? ty.key = none) (key : ty'.key = ty.key) : q.Stands id ty := by
  refine ⟨_, read, nonzero, ?_, ty', ?_, key⟩
  · simp [TypeTable.id, TypeTable.register, Table.get?_setIfNew, key, absent]
  · simp [TypeTable.register, TypeTable.type?, Table.get?_set]

/-- The constants that were there read as before, also with one more type. -/
theorem Declared.foldl_readConstant (h : p.Declared q r notes) (before : p.Bounded) {t' : TypeTable}
    (same : ∀ id, id ≠ p.module.idBound → t'.type? (.int id) = t.type? (.int id)) :
    q.module.typesValues.foldl (Workspace.readConstant q t') {} =
      Workspace.readConstant q t' (p.module.typesValues.foldl (Workspace.readConstant p t) {}) r := by
  rw [h.adds.typesValues, List.foldl_append, List.foldl_cons, List.foldl_nil]
  congr 1
  refine List.foldl_ext _ _ _ fun c s member => ?_
  by_cases constant : (p.inst s).opcode = .constant
  · have other : (p.inst s).typeId ≠ p.module.idBound := by
      by_cases typed : (p.inst s).typeId = 0
      · exact typed ▸ h.nonzero.symm
      · exact Int.ne_of_lt (before.typed s member constant typed)
    simp only [Workspace.readConstant, h.adds.global s member, same _ other]
  · rw [readConstant_of_ne _ _ constant, readConstant_of_ne]
    rwa [h.adds.global s member]

/-- A type is read from its new declaration. -/
theorem Declared.typeTable (h : p.Declared q r notes)
    (others : ∀ s ∈ p.declarations, (p.inst s).resultId ≠ p.module.idBound) (read : p.typeTable = .ok t)
    {declaration : Opcode × List Operand} {ty : Ty} {b : Annotations}
    (inst : q.inst r = { opcode := declaration.1, resultId := p.module.idBound, operands := declaration.2 })
    (spells : Ty.Spells t.type? declaration ty) (annotated : Annotations.ofProgram q = .ok b)
    (onId : Annotations.ofType q b (.int p.module.idBound) = (ty.decorations, ty.memberDecorations)) :
    ∃ ty', ty'.key = ty.key ∧ q.typeTable = .ok (t.register p.module.idBound ty') := by
  have declares : (q.inst r).opcode.declaresType = true := by
    rw [inst]
    exact spells.declares
  obtain ⟨plain, declared, ty', decorated, stored, key⟩ := spells.reads p.module.idBound
  have step : TypeTable.read q b t r = .ok (t.register p.module.idBound ty') := by
    refine TypeTable.read_ok_iff.mpr ⟨plain, inst ▸ declared, ty', ?_, stored, by rw [h.result]⟩
    rw [h.result, onId]
    exact decorated
  refine ⟨ty', key, ?_⟩
  rw [h.adds.typeTable annotated fun s member n among => ?_, read]
  · have filtered : [r].filter (fun s => (q.inst s).opcode.declaresType) = [r] :=
      List.filter_cons_of_pos declares
    rw [filtered]
    exact except_bind_ok_iff.mpr ⟨t, rfl, by rw [List.foldlM_cons, step]; rfl⟩
  · rw [h.targets n among]
    simpa using (others s member).symm

/-- A type that was not there is read from its new declaration, and the constants as before. -/
theorem Declared.type (h : p.Declared q r notes) (before : p.Bounded) (read : p.typeTable = .ok t)
    {declaration : Opcode × List Operand} {ty : Ty} {b : Annotations}
    (inst : q.inst r = { opcode := declaration.1, resultId := p.module.idBound, operands := declaration.2 })
    (spells : Ty.Spells t.type? declaration ty) (annotated : Annotations.ofProgram q = .ok b)
    (onId : Annotations.ofType q b (.int p.module.idBound) = (ty.decorations, ty.memberDecorations)) :
    ∃ ty', ty'.key = ty.key ∧ q.typeTable = .ok (t.register p.module.idBound ty') ∧
      ∀ c, p.constantTable = .ok c → q.constantTable = .ok c := by
  have others : ∀ s ∈ p.declarations, (p.inst s).resultId ≠ p.module.idBound :=
    fun s member => Int.ne_of_lt (before.ids s member).2
  obtain ⟨ty', key, read'⟩ := h.typeTable others read inst spells annotated onId
  refine ⟨ty', key, read', fun c found => ?_⟩
  rw [constantTable_ok read] at found
  obtain rfl := Except.ok.inj found
  rw [constantTable_ok read', h.foldl_readConstant before fun id other => ?_, readConstant_of_ne]
  · rw [inst]
    intro constant
    have declares := spells.declares
    rw [show declaration.1 = .constant from constant] at declares
    cases declares
  · simp only [TypeTable.register, TypeTable.type?, Table.get?_set, Value.int.injEq, if_neg (Ne.symm other)]

/-- A constant is read from its new declaration. -/
theorem Declared.constant (h : p.Declared q r []) (before : p.Bounded) (read : p.typeTable = .ok t)
    (table : p.constantTable = .ok c) {typeId : Id} {value : Value} {ty : Ty}
    (inst : q.inst r = { opcode := .constant, typeId, resultId := p.module.idBound
                         operands := [⟨.literalNumber, value⟩] })
    (found : t.type? (.int typeId) = some ty) :
    q.typeTable = .ok t ∧ q.constantTable = .ok (c.register ty value p.module.idBound) := by
  have untyped : ∀ s ∈ [r], (q.inst s).opcode.declaresType = false := by
    intro s member
    obtain rfl := List.mem_singleton.mp member
    rw [inst]
    rfl
  have read' : q.typeTable = .ok t := by rw [h.adds.typeTable_eq rfl untyped, read]
  rw [constantTable_ok read] at table
  obtain rfl := Except.ok.inj table
  refine ⟨read', ?_⟩
  rw [constantTable_ok read', h.foldl_readConstant before fun _ _ => rfl]
  generalize p.module.typesValues.foldl (Workspace.readConstant p t) {} = c
  simp only [Workspace.readConstant, inst, found, if_pos]

end Program

end BlockTally
