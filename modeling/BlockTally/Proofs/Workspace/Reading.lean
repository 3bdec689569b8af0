import BlockTally.Proofs.Facts.Annotations
import BlockTally.Workspace.Basic
import Mathlib.Data.List.Basic

/-! What a fresh reading of a program finds.

A workspace finds facts when they are first asked for, and keeps them from then on. A fresh reading looks at the
program only. Facts that answer like a fresh reading are current; it does not matter how they came about.
-/

set_option autoImplicit false

namespace BlockTally

/-! ### Types and constants -/

def TypeTable.read (p : Program) (a : Annotations) (t : TypeTable) (r : InstRef) : Except Error TypeTable := do
  let plain ← Ty.ofInstruction t.type? (p.inst r)
  let annotations := Annotations.ofType p a (.int (p.inst r).resultId)
  let ty ← plain.decorated annotations.1 annotations.2
  ty.checkStorage
  return t.register (p.inst r).resultId ty

theorem TypeTable.read_ok_iff {p : Program} {a : Annotations} {t t' : TypeTable} {r : InstRef} :
    TypeTable.read p a t r = .ok t' ↔ ∃ plain, Ty.ofInstruction t.type? (p.inst r) = .ok plain ∧
      ∃ ty, plain.decorated (Annotations.ofType p a (.int (p.inst r).resultId)).1
        (Annotations.ofType p a (.int (p.inst r).resultId)).2 = .ok ty ∧ ty.checkStorage = .ok () ∧
        t.register (p.inst r).resultId ty = t' := by
  simp only [TypeTable.read, except_bind_ok_iff, pure, Except.pure, Except.ok.injEq]
  exact ⟨fun ⟨plain, declared, ty, decorated, _, rest⟩ => ⟨plain, declared, ty, decorated, rest⟩,
    fun ⟨plain, declared, ty, decorated, rest⟩ => ⟨plain, declared, ty, decorated, (), rest⟩⟩

namespace Program

def declarations (p : Program) : List InstRef :=
  p.module.typesValues.filter fun r => (p.inst r).opcode.declaresType

/-- The types of the module. Annotations are of interest only if there is a type. -/
def typeTable (p : Program) : Except Error TypeTable :=
  if p.declarations = [] then .ok {}
  else do
    let a ← Annotations.ofProgram p
    p.declarations.foldlM (TypeTable.read p a) {}

def constantTable (p : Program) : Except Error ConstantTable := do
  let types ← p.typeTable
  return p.module.typesValues.foldl (Workspace.readConstant p types) {}

variable {p q : Program} {a b : Annotations} {t : TypeTable}

theorem typeTable_of_annotations (read : Annotations.ofProgram p = .ok a) :
    p.typeTable = p.declarations.foldlM (TypeTable.read p a) {} := by
  unfold typeTable
  split
  next none =>
    rw [none]
    rfl
  next =>
    rw [read]
    rfl

theorem typeTable_ok_iff : p.typeTable = .ok t ↔ (p.declarations = [] ∧ t = {}) ∨
    ∃ a, Annotations.ofProgram p = .ok a ∧ p.declarations.foldlM (TypeTable.read p a) {} = .ok t := by
  constructor
  · intro read
    unfold typeTable at read
    split at read
    next none => exact .inl ⟨none, (Except.ok.inj read).symm⟩
    next => exact .inr (except_bind_ok_iff.mp read)
  · rintro (⟨none, rfl⟩ | ⟨a, annotated, read⟩)
    · exact if_pos none
    · rw [typeTable_of_annotations annotated, read]

/-- Exactly the ids of the declarations are known. -/
theorem isSome_type?_iff (read : p.typeTable = .ok t) {id : Id} :
    (t.type? (.int id)).isSome = true ↔ ∃ r ∈ p.declarations, (p.inst r).resultId = id := by
  rcases typeTable_ok_iff.mp read with ⟨none, rfl⟩ | ⟨a, -, read⟩
  · simp [none, TypeTable.type?]
  refine except_foldlM_ok (fun done t => (t.type? (.int id)).isSome = true ↔ ∃ r ∈ done, (p.inst r).resultId = id)
    read (by simp [TypeTable.type?]) fun done r _ t t' _ held step => ?_
  obtain ⟨_, -, ty, -, -, rfl⟩ := TypeTable.read_ok_iff.mp step
  simp only [TypeTable.register, TypeTable.type?, Table.get?_set, Value.int.injEq, List.mem_append,
    List.mem_singleton, or_and_right, exists_or, exists_eq_left] at held ⊢
  split
  next same => simp [same]
  next other => rw [held]; simp [other]

theorem constantTable_ok (read : p.typeTable = .ok t) :
    p.constantTable = .ok (p.module.typesValues.foldl (Workspace.readConstant p t) {}) := by
  unfold constantTable
  rw [read]
  rfl

/-! ### Longer modules -/

structure Adds (p q : Program) (globals notes : List InstRef) : Prop where
  typesValues : q.module.typesValues = p.module.typesValues ++ globals
  annotations : q.module.annotations = p.module.annotations ++ notes
  global : ∀ r ∈ p.module.typesValues, q.inst r = p.inst r
  note : ∀ r ∈ p.module.annotations, q.inst r = p.inst r

namespace Adds

theorem trans {o : Program} {globals globals' notes notes' : List InstRef} (first : p.Adds q globals notes)
    (second : q.Adds o globals' notes') : p.Adds o (globals ++ globals') (notes ++ notes') where
  typesValues := by rw [second.typesValues, first.typesValues, List.append_assoc]
  annotations := by rw [second.annotations, first.annotations, List.append_assoc]
  global r member := by
    have among : r ∈ q.module.typesValues := first.typesValues ▸ List.mem_append_left _ member
    rw [second.global r among, first.global r member]
  note r member := by
    have among : r ∈ q.module.annotations := first.annotations ▸ List.mem_append_left _ member
    rw [second.note r among, first.note r member]

variable {globals notes : List InstRef} (h : p.Adds q globals notes)
include h

theorem declarations : q.declarations =
    p.declarations ++ globals.filter fun r => (q.inst r).opcode.declaresType := by
  unfold Program.declarations
  rw [h.typesValues, List.filter_append]
  congr 1
  exact List.filter_congr fun r member => by rw [h.global r member]

theorem ofProgram : Annotations.ofProgram q =
    Annotations.ofProgram p >>= fun a => notes.foldlM (Annotations.analyze q) a := by
  unfold Annotations.ofProgram
  rw [h.annotations, List.foldlM_append]
  congr 1
  exact except_foldlM_congr fun r member a => by simp only [Annotations.analyze, h.note r member]

theorem ofProgram_eq (unannotated : notes = []) : Annotations.ofProgram q = Annotations.ofProgram p := by
  subst unannotated
  rw [h.ofProgram]
  cases Annotations.ofProgram p <;> rfl

/-- Annotations that are listed already still have the same values. -/
theorem valuesOn (annotated : Annotations.ofProgram p = .ok a) (annotated' : Annotations.ofProgram q = .ok b)
    (target : Value) (opcode : Opcode) : Annotations.valuesOn q b target opcode =
      Annotations.valuesOn p a target opcode ++ ((notes.filter fun n => (q.inst n).target? = some target).filter
        fun n => (q.inst n).opcode = opcode).map fun n => (q.inst n).valuesFrom 1 := by
  have on : b.on target = a.on target ++ notes.filter fun n => (q.inst n).target? = some target := by
    rw [Annotations.on_ofProgram annotated, Annotations.on_ofProgram annotated', h.annotations, List.filter_append,
      List.filter_congr fun n member => by rw [h.note n member]]
  have listed : ∀ n ∈ a.on target, q.inst n = p.inst n :=
    fun n member => h.note n ((Annotations.mem_on annotated).mp member).1
  unfold Annotations.valuesOn
  rw [on, List.filter_append, List.map_append, List.filter_congr fun n member => by rw [listed n member],
    List.map_congr_left fun n member => by rw [listed n (List.mem_of_mem_filter member)]]

/-- What is not annotated anew reads as before. -/
theorem read_eq (annotated : Annotations.ofProgram p = .ok a) (annotated' : Annotations.ofProgram q = .ok b)
    {r : InstRef} (listed : r ∈ p.module.typesValues)
    (elsewhere : ∀ n ∈ notes, (q.inst n).target? ≠ some (.int (p.inst r).resultId)) (t : TypeTable) :
    TypeTable.read q b t r = TypeTable.read p a t r := by
  have none : notes.filter (fun n => (q.inst n).target? = some (.int (p.inst r).resultId)) = [] :=
    List.filter_eq_nil_iff.mpr fun n member => by simpa using elsewhere n member
  have ofType : Annotations.ofType q b (.int (p.inst r).resultId) =
      Annotations.ofType p a (.int (p.inst r).resultId) := by
    simp only [Annotations.ofType_eq annotated, Annotations.ofType_eq annotated', h.valuesOn annotated annotated',
      none, List.filter_nil, List.map_nil, List.append_nil]
  simp only [TypeTable.read, h.global r listed, ofType]

/-- Only the new declarations have to be read if none of the old ones is annotated anew. -/
theorem typeTable (annotated' : Annotations.ofProgram q = .ok b)
    (elsewhere : ∀ r ∈ p.declarations, ∀ n ∈ notes, (q.inst n).target? ≠ some (.int (p.inst r).resultId)) :
    q.typeTable = p.typeTable >>= fun t =>
      (globals.filter fun r => (q.inst r).opcode.declaresType).foldlM (TypeTable.read q b) t := by
  obtain ⟨a, annotated, -⟩ := except_bind_ok_iff.mp (h.ofProgram.symm.trans annotated')
  rw [typeTable_of_annotations annotated', typeTable_of_annotations annotated, h.declarations, List.foldlM_append]
  congr 1
  exact except_foldlM_congr fun r member t =>
    h.read_eq annotated annotated' (List.mem_of_mem_filter member) (elsewhere r member) t

/-- Without new types and annotations the types are the same. -/
theorem typeTable_eq (unannotated : notes = [])
    (untyped : ∀ r ∈ globals, (q.inst r).opcode.declaresType = false) : q.typeTable = p.typeTable := by
  subst unannotated
  have none : globals.filter (fun r => (q.inst r).opcode.declaresType) = [] :=
    List.filter_eq_nil_iff.mpr fun r member => by simp [untyped r member]
  have declarations : q.declarations = p.declarations := by rw [h.declarations, none, List.append_nil]
  have annotations := h.ofProgram_eq rfl
  unfold Program.typeTable
  rw [declarations, annotations]
  cases annotated : Annotations.ofProgram p with
  | error e => rfl
  | ok a =>
    split
    · rfl
    · exact except_foldlM_congr fun r member t =>
        h.read_eq annotated (annotations.trans annotated) (List.mem_of_mem_filter member) nofun t

end Adds

/-- An annotation that is listed last has the last values. -/
theorem Adds.valuesOn_noted {r : InstRef} {target : Value} (h : p.Adds q [] [r])
    (annotated : Annotations.ofProgram p = .ok a) (annotated' : Annotations.ofProgram q = .ok b)
    (own : (q.inst r).target? = some target) (opcode : Opcode) : Annotations.valuesOn q b target opcode =
      Annotations.valuesOn p a target opcode ++
        if (q.inst r).opcode = opcode then [(q.inst r).valuesFrom 1] else [] := by
  rw [h.valuesOn annotated annotated', List.filter_cons_of_pos (by simpa using own), List.filter_nil]
  split
  next same => simp [same]
  next other => simp [other]

end Program

/-! ### Tables that answer alike -/

/-- The tables know the same types, apart from the spelling of storage classes, under the same ids. -/
structure TypeTable.Agrees (t t' : TypeTable) : Prop where
  types : ∀ v, (t.type? v).map Ty.key = (t'.type? v).map Ty.key
  ids : ∀ key, (t.byType.get? key).map Entry.id = (t'.byType.get? key).map Entry.id

namespace TypeTable.Agrees

theorem refl (t : TypeTable) : t.Agrees t :=
  ⟨fun _ => rfl, fun _ => rfl⟩

variable {t t' : TypeTable}

theorem id (h : t.Agrees t') (ty : Ty) : t.id ty = t'.id ty := by
  unfold TypeTable.id
  rw [h.ids]

theorem type (h : t.Agrees t') {v : Value} {ty : Ty} (found : t.type? v = some ty) :
    ∃ ty', t'.type? v = some ty' ∧ ty'.key = ty.key := by
  have same := h.types v
  rw [found] at same
  exact Option.map_eq_some_iff.mp same.symm

theorem symm (h : t.Agrees t') : t'.Agrees t :=
  ⟨fun v => (h.types v).symm, fun key => (h.ids key).symm⟩

theorem register (h : t.Agrees t') {ty ty' : Ty} (same : ty.key = ty'.key) (id : Id) :
    (t.register id ty).Agrees (t'.register id ty') where
  types v := by
    simp only [TypeTable.register, TypeTable.type?, Table.get?_set]
    split
    · simp [same]
    · exact h.types v
  ids key := by
    simp only [TypeTable.register, Table.get?_setIfNew, same]
    split
    · have old := h.ids ty'.key
      cases first : t.byType.get? ty'.key <;> cases second : t'.byType.get? ty'.key <;>
        simp_all
    · exact h.ids key

end TypeTable.Agrees

def ConstantTable.Agrees (c c' : ConstantTable) : Prop :=
  ∀ ty value, c.id? ty value = c'.id? ty value

namespace ConstantTable

theorem id?_register (c : ConstantTable) (ty other : Ty) (value value' : Value) (id : Id) :
    (c.register ty value id).id? other value' = if (ty.key, value) = (other.key, value') then
      some ((c.id? ty value).getD id) else c.id? other value' := by
  simp only [id?, register, Table.get?_setIfNew]
  split
  next same =>
    obtain ⟨key, rfl⟩ := Prod.mk.inj same
    cases c.byValue.get? (ty.key, value) <;> rfl
  next => rfl

variable {c c' : ConstantTable}

theorem Agrees.register (h : c.Agrees c') {ty ty' : Ty} (same : ty.key = ty'.key) (value : Value) (id : Id) :
    (c.register ty value id).Agrees (c'.register ty' value id) := by
  intro other value'
  have known : c.id? ty value = c'.id? ty' value := by
    rw [h ty value]
    simp only [id?, same]
  rw [id?_register, id?_register, same, known, h other value']

end ConstantTable

namespace Workspace

theorem readConstant_agrees {p : Program} {t t' : TypeTable} {c c' : ConstantTable} (types : t.Agrees t')
    (h : c.Agrees c') (r : InstRef) : (readConstant p t c r).Agrees (readConstant p t' c' r) := by
  unfold readConstant
  dsimp only
  have same := types.types (.int (p.inst r).typeId)
  cases found : t.type? (.int (p.inst r).typeId) with
  | none =>
    rw [found] at same
    rw [Option.map_eq_none_iff.mp same.symm]
    exact h
  | some ty =>
    -- The two tables may know the id as different types, but of one key, and constants are kept by the key.
    obtain ⟨ty', found', key⟩ := types.type found
    rw [found']
    split
    next operand known operands =>
      obtain rfl := Option.some.inj known
      simp only [operands]
      split
      · exact h.register key.symm _ _
      · exact h
    next other =>
      split
      next operand known operands => exact absurd operands (other ty operand rfl)
      next => exact h

theorem readConstants_agree {p : Program} {t t' : TypeTable} {c c' : ConstantTable} (types : t.Agrees t')
    (h : c.Agrees c') (refs : List InstRef) :
    (refs.foldl (readConstant p t) c).Agrees (refs.foldl (readConstant p t') c') := by
  induction refs generalizing c c' with
  | nil => exact h
  | cons r rest ih => exact ih (readConstant_agrees types h r)

/-! ### Current facts -/

structure Current (w : Workspace) : Prop where
  annotations : ∀ a, w.facts.annotations = some a → Annotations.ofProgram w.program = .ok a
  types : ∀ t, w.facts.types = some t → ∃ t', w.program.typeTable = .ok t' ∧ t.Agrees t'
  constants : ∀ c, w.facts.constants = some c → ∃ c', w.program.constantTable = .ok c' ∧ c.Agrees c'

theorem current_forgotten (p : Program) : Current { program := p } :=
  ⟨nofun, nofun, nofun⟩

def withAnnotations (w : Workspace) (a : Annotations) : Workspace :=
  { w with facts := { w.facts with annotations := some a } }

theorem withAnnotations_self {w : Workspace} {a : Annotations} (found : w.facts.annotations = some a) :
    w.withAnnotations a = w := by
  obtain ⟨p, facts⟩ := w
  obtain ⟨uses, annotations, types, constants, features⟩ := facts
  obtain rfl : annotations = some a := found
  rfl

variable {w : Workspace}

theorem Current.withAnnotations (h : w.Current) {a : Annotations} (read : Annotations.ofProgram w.program = .ok a) :
    (w.withAnnotations a).Current where
  annotations b found := by
    obtain rfl := Option.some.inj found
    exact read
  types := h.types
  constants := h.constants

theorem after_needAnnotations (known : ∀ a, w.facts.annotations = some a → Annotations.ofProgram w.program = .ok a) :
    Change.After needAnnotations w
      (fun a w' => Annotations.ofProgram w.program = .ok a ∧ w' = w.withAnnotations a)
      (fun _ _ => ∀ a, Annotations.ofProgram w.program ≠ .ok a) := by
  unfold needAnnotations
  apply Change.After.bind_get
  split
  next a found => exact .pure ⟨known a found, (withAnnotations_self found).symm⟩
  next =>
    refine .bind_get (.bind (.check (fun a read => ?_) fun e failed a read => ?_))
    · exact .bind (.modify (.pure ⟨read, rfl⟩))
    · cases failed.symm.trans read

theorem after_readType (t : TypeTable) (r : InstRef) (current : w.Current) : Change.After (readType t r) w
    (fun t' w' => ∃ a, Annotations.ofProgram w.program = .ok a ∧ TypeTable.read w.program a t r = .ok t' ∧
      w' = w.withAnnotations a)
    (fun _ _ => ∀ a, Annotations.ofProgram w.program = .ok a → ∀ t', TypeTable.read w.program a t r ≠ .ok t') := by
  simp only [ne_eq, TypeTable.read_ok_iff]
  unfold readType
  refine .bind_get (.bind (.check (fun plain declared => ?_) fun e failed a _ t' read => ?_))
  · refine .bind (.mono (after_needAnnotations current.annotations) (fun a w' held => ?_) fun e _ none a read _ => ?_)
    · obtain ⟨annotated, rfl⟩ := held
      refine .bind (.check (fun ty decorated => ?_) fun e failed b annotated' t' read => ?_)
      · refine .bind (.check (fun _ stored => ?_) fun e failed b annotated' t' read => ?_)
        · exact .pure ⟨a, annotated, ⟨plain, declared, ty, decorated, stored, rfl⟩, rfl⟩
        · obtain rfl := Except.ok.inj (annotated.symm.trans annotated')
          obtain ⟨plain', declared', ty', decorated', stored, -⟩ := read
          obtain rfl := Except.ok.inj (declared.symm.trans declared')
          obtain rfl := Except.ok.inj (decorated.symm.trans decorated')
          cases failed.symm.trans stored
      · obtain rfl := Except.ok.inj (annotated.symm.trans annotated')
        obtain ⟨plain', declared', ty', decorated', -⟩ := read
        obtain rfl := Except.ok.inj (declared.symm.trans declared')
        cases failed.symm.trans decorated'
    · exact absurd read (none a)
  · obtain ⟨plain, declared, -⟩ := read
    cases failed.symm.trans declared

/-- Some declarations of a workspace were read. If there was one, its annotations were found on the way; nothing else
has changed. -/
structure ReadSoFar (w : Workspace) (done : List InstRef) (t : TypeTable) (w' : Workspace) : Prop where
  same : w' = w ∧ done = [] ∧ t = {} ∨ ∃ a, Annotations.ofProgram w.program = .ok a ∧ w' = w.withAnnotations a
  read : ∀ a, Annotations.ofProgram w.program = .ok a → done.foldlM (TypeTable.read w.program a) {} = .ok t

theorem ReadSoFar.next {done : List InstRef} {t : TypeTable} {w' : Workspace} (h : w.ReadSoFar done t w')
    (current : w.Current) (r : InstRef) : Change.After (readType t r) w' (w.ReadSoFar (done ++ [r]))
      fun _ _ => ∀ a, Annotations.ofProgram w.program = .ok a → ∀ t', TypeTable.read w.program a t r ≠ .ok t' := by
  have state : w'.Current ∧ w'.program = w.program ∧ ∀ a, w'.withAnnotations a = w.withAnnotations a := by
    rcases h.same with ⟨rfl, -⟩ | ⟨a, annotated, rfl⟩
    · exact ⟨current, rfl, fun _ => rfl⟩
    · exact ⟨current.withAnnotations annotated, rfl, fun _ => rfl⟩
  obtain ⟨current', program, facts⟩ := state
  refine .mono (after_readType t r current') (fun t' w'' held => ?_) fun e w'' none => program ▸ none
  obtain ⟨a, annotated, first, rfl⟩ := held
  rw [program] at annotated first
  rw [facts]
  refine ⟨.inr ⟨a, annotated, rfl⟩, fun b annotated' => ?_⟩
  obtain rfl := Except.ok.inj (annotated.symm.trans annotated')
  rw [List.foldlM_append, h.read a annotated]
  refine except_bind_ok_iff.mpr ⟨t, rfl, ?_⟩
  rw [List.foldlM_cons]
  exact except_bind_ok_iff.mpr ⟨t', first, rfl⟩

/-- Reading the types of a workspace is reading those of its program. -/
theorem after_readTypes (current : w.Current) : Change.After readTypes w
    (fun t w' => w.program.typeTable = .ok t ∧
      (w' = w ∨ ∃ a, Annotations.ofProgram w.program = .ok a ∧ w' = w.withAnnotations a))
    (fun _ _ => ∀ t, w.program.typeTable ≠ .ok t) := by
  have loop : Change.After (w.program.declarations.foldlM readType {}) w (w.ReadSoFar w.program.declarations)
      (fun _ _ => ∀ t, w.program.typeTable ≠ .ok t) := by
    refine Change.After.foldlM w.ReadSoFar ⟨.inl ⟨rfl, rfl, rfl⟩, fun _ _ => rfl⟩ fun done r rest t w' split held => ?_
    refine .mono (held.next current r) (fun _ _ => id) fun e _ none t' whole => ?_
    -- If the whole could be read, so could this declaration.
    rcases Program.typeTable_ok_iff.mp whole with ⟨nothing, -⟩ | ⟨a, annotated, whole⟩
    · rw [nothing] at split
      simp at split
    · rw [split, List.foldlM_append] at whole
      obtain ⟨t'', before, whole⟩ := except_bind_ok_iff.mp whole
      obtain rfl := Except.ok.inj ((held.read a annotated).symm.trans before)
      rw [List.foldlM_cons] at whole
      obtain ⟨_, first, -⟩ := except_bind_ok_iff.mp whole
      exact none a annotated _ first
  refine .bind_get (.mono loop (fun t w' held => ?_) fun _ _ none => none)
  obtain ⟨⟨rfl, nothing, rfl⟩ | ⟨a, annotated, rfl⟩, read⟩ := held
  · exact ⟨if_pos nothing, .inl rfl⟩
  · exact ⟨(Program.typeTable_of_annotations annotated).trans (read a annotated), .inr ⟨a, annotated, rfl⟩⟩

theorem after_needTypes (current : w.Current) : Change.After needTypes w
    (fun t w' => (∃ t', w.program.typeTable = .ok t' ∧ t.Agrees t') ∧ w'.Current ∧ w'.program = w.program ∧
      w'.facts.types = some t ∧ w'.facts.constants = w.facts.constants)
    (fun _ _ => ∀ t, w.program.typeTable ≠ .ok t) := by
  unfold needTypes
  apply Change.After.bind_get
  split
  next t found => exact .pure ⟨current.types t found, current, rfl, found, rfl⟩
  next =>
    refine .bind (.mono (after_readTypes current) (fun t w' held => ?_) fun _ _ none => none)
    obtain ⟨read, same⟩ := held
    have state : w'.Current ∧ w'.program = w.program ∧ w'.facts.constants = w.facts.constants := by
      rcases same with rfl | ⟨a, annotated, rfl⟩
      · exact ⟨current, rfl, rfl⟩
      · exact ⟨current.withAnnotations annotated, rfl, rfl⟩
    obtain ⟨current', program, constants⟩ := state
    rw [← program] at read
    refine .bind (.modify (.pure ⟨⟨t, program ▸ read, .refl t⟩, ⟨current'.annotations, fun t' found => ?_,
      current'.constants⟩, program, rfl, constants⟩))
    obtain rfl := Option.some.inj found
    exact ⟨t, read, .refl t⟩

theorem after_needConstants (current : w.Current) : Change.After needConstants w
    (fun c w' => (∃ c', w.program.constantTable = .ok c' ∧ c.Agrees c') ∧ w'.Current ∧ w'.program = w.program ∧
      (w.facts.types.isSome = true → w'.facts.types.isSome = true) ∧ w'.facts.constants = some c)
    (fun _ _ => ∀ t, w.program.typeTable ≠ .ok t) := by
  unfold needConstants
  apply Change.After.bind_get
  split
  next c found => exact .pure ⟨current.constants c found, current, rfl, id, found⟩
  next =>
    refine .bind (.mono (after_needTypes current) (fun types w' held => ?_) fun _ _ none => none)
    obtain ⟨⟨t, read, agrees⟩, current', program, known, -⟩ := held
    rw [← program] at read
    have same := readConstants_agree (p := w'.program) agrees (c := {}) (fun _ _ => rfl) w'.program.module.typesValues
    have table := Program.constantTable_ok read
    refine .bind_get (.bind (.modify (.pure ⟨⟨_, program ▸ table, same⟩, ⟨current'.annotations, current'.types,
      fun c found => ?_⟩, program, fun _ => ?_, rfl⟩)))
    · obtain rfl := Option.some.inj found
      exact ⟨_, table, same⟩
    · rw [known]
      rfl

end Workspace

end BlockTally
