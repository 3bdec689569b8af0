import BlockTally.Proofs.Ty.Telling
import BlockTally.Proofs.Workspace.Rereading

/-! Tables that record a module.

In whatever order types, constants and decorations are asked for, and whether the requests succeed or not, the table of
types goes on to record the declarations of the module: an id that is not null is known as the type that its declaration
tells of. All that the requests declare is numbered. So an answer is the id of a declaration, and a null id can only
come from a constant that the module had to begin with.
-/

set_option autoImplicit false

namespace BlockTally

namespace Program.Adds

theorem refl (p : Program) : p.Adds p [] [] :=
  ⟨(List.append_nil _).symm, (List.append_nil _).symm, fun _ _ => rfl, fun _ _ => rfl⟩

variable {p q : Program} {globals notes : List InstRef} (h : p.Adds q globals notes)
include h

theorem declares {i : Instruction} (known : p.Declares i) : q.Declares i := by
  obtain ⟨r, member, rfl⟩ := known
  exact ⟨r, h.typesValues ▸ List.mem_append_left _ member, h.global r member⟩

theorem typesNumbered (numbered : q.TypesNumbered) : p.TypesNumbered := by
  intro r member
  rw [← h.global r (List.mem_of_mem_filter member)]
  exact numbered r (h.declarations ▸ List.mem_append_left _ member)

theorem hasConstant {id : Id} {value : Value} (known : p.HasConstant id value) : q.HasConstant id value := by
  obtain ⟨i, declared, rest⟩ := known
  exact ⟨i, h.declares declared, rest⟩

/-- A constant without a number was there before if what is new is numbered. -/
theorem hasConstant_zero {value : Value} (numbered : ∀ r ∈ globals, (q.inst r).resultId ≠ 0)
    (known : q.HasConstant 0 value) : p.HasConstant 0 value := by
  obtain ⟨i, ⟨r, member, rfl⟩, constant, result, values⟩ := known
  rw [h.typesValues] at member
  rcases List.mem_append.mp member with old | new
  · rw [h.global r old] at constant result values
    exact ⟨_, ⟨r, old, rfl⟩, constant, result, values⟩
  · exact absurd result (numbered r new)

end Program.Adds

/-! ### Tables of types -/

/-- Every id of the table but the null id is declared by an instruction that tells of its type. Known types are found;
if the types of the program are numbered, nothing is known or found under the null id. -/
structure TypeTable.Recorded (t : TypeTable) (p : Program) : Prop where
  sound : t.Sound fun _ => True
  told : ∀ id ty, t.type? (.int id) = some ty → id ≠ 0 →
    ∃ i, p.Declares i ∧ i.resultId = id ∧ Ty.Told t.type? i ty
  found : ∀ v ty, t.type? v = some ty → t.byType.get? ty.key ≠ none
  numbered : p.TypesNumbered → ∀ key entry, t.byType.get? key = some entry → entry.id ≠ 0
  null : p.TypesNumbered → t.type? (.int 0) = none

namespace TypeTable.Recorded

variable {t : TypeTable} {p q : Program} {globals notes : List InstRef}

theorem empty (p : Program) : TypeTable.Recorded {} p :=
  ⟨.empty _, nofun, nofun, fun _ => nofun, fun _ => rfl⟩

theorem of_adds (h : t.Recorded p) (adds : p.Adds q globals notes) : t.Recorded q where
  sound := h.sound
  told id ty found nonzero := by
    obtain ⟨i, declared, rest⟩ := h.told id ty found nonzero
    exact ⟨i, adds.declares declared, rest⟩
  found := h.found
  numbered numbered := h.numbered (adds.typesNumbered numbered)
  null numbered := h.null (adds.typesNumbered numbered)

theorem register (h : t.Recorded p) {i : Instruction} {ty : Ty} (declared : p.Declares i)
    (fresh : i.resultId ≠ 0 → t.type? (.int i.resultId) = none) (tells : Ty.Told t.type? i ty)
    (numbered : p.TypesNumbered → i.resultId ≠ 0) : (t.register i.resultId ty).Recorded p := by
  have later (v : Value) (component : Ty) (notNull : v ≠ .int 0) (known : t.type? v = some component) :
      (t.register i.resultId ty).type? v = some component := by
    rw [type?_register, if_neg]
    · exact known
    · rintro rfl
      exact absurd known (by simp [fresh fun zero => notNull (congrArg _ zero)])
  have still (known : t.type? (.int 0) ≠ none) : (t.register i.resultId ty).type? (.int 0) ≠ none := by
    rw [type?_register]
    split
    · exact Option.some_ne_none ty
    · exact known
  refine ⟨(h.sound.register ty fresh).mono fun _ _ _ => True.intro, fun id other known nonzero => ?_,
    found_register h.found, fun assumed => numbered_register (h.numbered assumed) (numbered assumed),
    fun assumed => ?_⟩
  · rw [type?_register] at known
    split at known
    next same =>
      obtain rfl := Option.some.inj known
      exact ⟨i, declared, Value.int.inj same, tells.mono later still⟩
    next =>
      obtain ⟨j, declared', result, tells'⟩ := h.told id other known nonzero
      exact ⟨j, declared', result, tells'.mono later still⟩
  · rw [type?_register, if_neg fun zero => numbered assumed (Value.int.inj zero)]
    exact h.null assumed

end TypeTable.Recorded

/-- Constants are still in the table when the program has more declarations. -/
theorem ConstantTable.Sound.of_adds {c : ConstantTable} {p q : Program} {globals notes : List InstRef}
    (h : c.Sound p) (adds : p.Adds q globals notes) : c.Sound q :=
  fun key value entry among => adds.hasConstant (h key value entry among)

namespace Workspace

open Account Contract

/-! ### Workspaces that go on from a program -/

/-- The program has more declarations than the one to begin with, all of them numbered, and the tables record it. -/
structure Continues (p : Program) (w : Workspace) : Prop where
  added : ∃ globals notes, p.Adds w.program globals notes ∧ ∀ r ∈ globals, (w.program.inst r).resultId ≠ 0
  held : w.program.GlobalsHeld
  distinct : (w.program.idsOf w.program.module.typesValues).Nodup
  below : ∀ id ∈ w.program.idsOf w.program.module.typesValues, id < w.program.module.idBound
  types : ∀ t, w.facts.types = some t → t.Recorded w.program
  annotated : ∀ t v, w.facts.types = some t → (t.type? v).isSome = true → w.facts.annotations.isSome = true
  constants : ∀ c, w.facts.constants = some c → c.Sound w.program

structure Onward (p : Program) (w w' : Workspace) : Prop where
  continues : w'.Continues p
  program : ∃ globals notes, w.program.Adds w'.program globals notes
  known : ∀ t, w.facts.types = some t → ∃ t', w'.facts.types = some t' ∧
    ∀ v ty, t.type? v = some ty → t'.type? v = some ty

/-- The table of types was not told of what is new, and annotations that were found are found. -/
structure Untold (p : Program) (w w' : Workspace) : Prop extends Onward p w w' where
  types : w'.facts.types = w.facts.types
  annotations : w.facts.annotations.isSome = true → w'.facts.annotations.isSome = true

variable {p : Program} {w w' w'' : Workspace}

theorem continues_of_validate (valid : p.validate = .ok ()) (closed : p.Closed) :
    Continues p { program := p } where
  added := ⟨[], [], .refl p, nofun⟩
  held := (Program.Closed.filed closed).globalsHeld
  distinct := (Program.validate_ok_iff.mp valid).distinct.sublist (p.idsOf_sublist p.typesValues_sublist)
  below id member :=
    ((Program.validate_ok_iff.mp valid).bounded id ((p.idsOf_sublist p.typesValues_sublist).subset member)).2
  types := nofun
  annotated := nofun
  constants := nofun

namespace Onward

theorem refl (h : w.Continues p) : w.Onward p w :=
  ⟨h, ⟨[], [], .refl _⟩, fun t found => ⟨t, found, fun _ _ known => known⟩⟩

theorem trans (first : w.Onward p w') (second : w'.Onward p w'') : w.Onward p w'' where
  continues := second.continues
  program := by
    obtain ⟨globals, notes, adds⟩ := first.program
    obtain ⟨globals', notes', adds'⟩ := second.program
    exact ⟨_, _, adds.trans adds'⟩
  known t found := by
    obtain ⟨t', found', more⟩ := first.known t found
    obtain ⟨t'', found'', more'⟩ := second.known t' found'
    exact ⟨t'', found'', fun v ty known => more' v ty (more v ty known)⟩

theorem declares (h : w.Onward p w') {i : Instruction} (declared : w.program.Declares i) : w'.program.Declares i := by
  obtain ⟨globals, notes, adds⟩ := h.program
  exact adds.declares declared

end Onward

namespace Untold

theorem refl (h : w.Continues p) : w.Untold p w :=
  ⟨.refl h, rfl, id⟩

theorem trans (first : w.Untold p w') (second : w'.Untold p w'') : w.Untold p w'' :=
  ⟨first.toOnward.trans second.toOnward, second.types.trans first.types, second.annotations ∘ first.annotations⟩

end Untold

namespace Continues

variable (h : w.Continues p)
include h

/-- A constant with the null id was there to begin with. -/
theorem hasConstant_zero {value : Value} (known : w.program.HasConstant 0 value) : p.HasConstant 0 value := by
  obtain ⟨globals, notes, adds, numbered⟩ := h.added
  exact adds.hasConstant_zero numbered known

/-- The program has got longer, and the tables have been left as they were. -/
theorem grown {globals notes : List InstRef} (adds : w.program.Adds w'.program globals notes)
    (numbered : ∀ r ∈ globals, (w'.program.inst r).resultId ≠ 0) (held : w'.program.GlobalsHeld)
    (distinct : (w'.program.idsOf w'.program.module.typesValues).Nodup)
    (below : ∀ id ∈ w'.program.idsOf w'.program.module.typesValues, id < w'.program.module.idBound)
    (types : w'.facts.types = w.facts.types) (constants : w'.facts.constants = w.facts.constants)
    (annotations : w.facts.annotations.isSome = true → w'.facts.annotations.isSome = true) : w.Untold p w' := by
  refine ⟨⟨⟨?_, held, distinct, below, fun t found => ?_, fun t v found known => ?_, fun c found => ?_⟩,
    ⟨globals, notes, adds⟩, fun t found => ⟨t, types.trans found, fun _ _ known => known⟩⟩, types, annotations⟩
  · obtain ⟨before, notes', first, numbered'⟩ := h.added
    refine ⟨_, _, first.trans adds, fun r member => ?_⟩
    rcases List.mem_append.mp member with old | new
    · rw [adds.global r (first.typesValues ▸ List.mem_append_right _ old)]
      exact numbered' r old
    · exact numbered r new
  · exact (h.types t (types ▸ found)).of_adds adds
  · exact annotations (h.annotated t v (types ▸ found) known)
  · exact (h.constants c (constants ▸ found)).of_adds adds

/-- Nothing was declared. -/
theorem noted {notes : List InstRef} (adds : w.program.Adds w'.program [] notes) (held : w'.program.GlobalsHeld)
    (bound : w.program.module.idBound ≤ w'.program.module.idBound) (types : w'.facts.types = w.facts.types)
    (constants : w'.facts.constants = w.facts.constants)
    (annotations : w.facts.annotations.isSome = true → w'.facts.annotations.isSome = true) : w.Untold p w' := by
  have same : w'.program.idsOf w'.program.module.typesValues = w.program.idsOf w.program.module.typesValues := by
    rw [adds.typesValues, List.append_nil]
    exact Program.idsOf_congr fun r member => by rw [adds.global r member]
  refine h.grown adds nofun held (same ▸ h.distinct) (fun id member => ?_) types constants annotations
  exact Int.lt_of_lt_of_le (h.below id (same ▸ member)) bound

/-- Neither was anything annotated. -/
theorem beside (typesValues : w'.program.module.typesValues = w.program.module.typesValues)
    (annotations : w'.program.module.annotations = w.program.module.annotations)
    (same : ∀ r, w.program.Holds r → w'.program.inst r = w.program.inst r)
    (longer : w.program.instructions.size ≤ w'.program.instructions.size)
    (bound : w.program.module.idBound ≤ w'.program.module.idBound) (types : w'.facts.types = w.facts.types)
    (constants : w'.facts.constants = w.facts.constants)
    (annotations' : w.facts.annotations.isSome = true → w'.facts.annotations.isSome = true) : w.Untold p w' := by
  have adds : w.program.Adds w'.program [] [] :=
    ⟨by rw [typesValues, List.append_nil], by rw [annotations, List.append_nil],
      fun r member => same r (h.held r (List.mem_append_left _ member)),
      fun r member => same r (h.held r (List.mem_append_right _ member))⟩
  exact h.noted adds (h.held.of_adds adds longer nofun) bound types constants annotations'

theorem of_facts (program : w'.program = w.program) (types : w'.facts.types = w.facts.types)
    (constants : w'.facts.constants = w.facts.constants)
    (annotations : w.facts.annotations.isSome = true → w'.facts.annotations.isSome = true) : w.Untold p w' :=
  h.beside (by rw [program]) (by rw [program]) (fun _ _ => by rw [program]) (Nat.le_of_eq (by rw [program]))
    (Int.le_of_eq (by rw [program])) types constants annotations

theorem nextBound : w.Untold p { w with program := w.program.nextBound } :=
  h.beside rfl rfl (fun _ _ => rfl) (Nat.le_refl _) (Int.le_of_lt (Int.lt_succ _)) rfl rfl id

/-- An instruction is made and listed neither among the declarations nor among the annotations. -/
theorem listed {place : Section} {i : Instruction} {facts : Facts} (undeclared : place ≠ .typesValues)
    (unannotated : place ≠ .annotations) (types : facts.types = w.facts.types)
    (constants : facts.constants = w.facts.constants) (annotations : facts.annotations = w.facts.annotations) :
    w.Untold p { program := (w.program.made i).appended place ⟨w.program.instructions.size⟩, facts } := by
  have same (r : InstRef) (held : w.program.Holds r) : (w.program.made i).inst r = w.program.inst r :=
    Program.inst_made_of_lt i held
  have longer : w.program.instructions.size ≤ (w.program.made i).instructions.size :=
    Nat.le_of_lt (Nat.lt_of_lt_of_eq (Nat.lt_succ_self _) (w.program.size_made i).symm)
  have known : w.facts.annotations.isSome = true → facts.annotations.isSome = true := annotations ▸ id
  cases place with
  | typesValues => exact absurd rfl undeclared
  | annotations => exact absurd rfl unannotated
  | _ => exact h.beside rfl rfl same longer (Int.le_refl _) types constants known

/-- A new annotation is listed. -/
theorem annotated_made {i : Instruction} {found : Option Annotations}
    (annotations : w.facts.annotations.isSome = true → found.isSome = true) :
    w.Untold p ({ w with program := w.program.made i }.annotated ⟨w.program.instructions.size⟩ found) := by
  have adds := h.held.noted i
  have size := w.program.size_made i
  refine h.noted adds (h.held.of_adds adds (Nat.le_of_lt (Nat.lt_of_lt_of_eq (Nat.lt_succ_self _) size.symm)) ?_)
    (Int.le_refl _) rfl rfl annotations
  exact List.forall_mem_singleton.mpr (w.program.holds_made i)

/-- An instruction is declared under the next id, which is not the null id. -/
theorem declared {i : Instruction} (uses : Option Uses) (result : i.resultId = w.program.module.idBound)
    (nonzero : w.program.module.idBound ≠ 0) :
    w.Untold p { program := w.program.declared i, facts := { w.facts with uses } } := by
  obtain ⟨adds, held⟩ := h.held.declared i
  have inst := w.program.inst_declared i
  have own : i.ownIds = [w.program.module.idBound] := by
    simp [Instruction.ownIds, Instruction.hasResult, nonzero, result]
  -- The new id comes behind those of the declarations before.
  have ids : (w.program.declared i).idsOf (w.program.declared i).module.typesValues =
      w.program.idsOf w.program.module.typesValues ++ [w.program.module.idBound] := by
    have old : (w.program.declared i).idsOf w.program.module.typesValues =
        w.program.idsOf w.program.module.typesValues :=
      Program.idsOf_congr fun r member => by rw [adds.global r member]
    rw [adds.typesValues, Program.idsOf_append, old, Program.idsOf_cons, inst, own]
    rfl
  refine h.grown adds (List.forall_mem_singleton.mpr ?_) held ?_ (fun id member => ?_) rfl rfl id
  · rw [inst, result]
    exact nonzero
  · rw [ids, List.nodup_append]
    refine ⟨h.distinct, List.nodup_singleton _, fun id old id' new same => ?_⟩
    rw [List.mem_singleton.mp new] at same
    exact Int.lt_irrefl _ (same ▸ h.below id old)
  · rw [ids] at member
    rcases List.mem_append.mp member with old | new
    · exact Int.lt_trans (h.below id old) (Int.lt_succ _)
    · exact List.mem_singleton.mp new ▸ Int.lt_succ _

/-- The next id is not known yet. -/
theorem fresh {t : TypeTable} (found : w.facts.types = some t) (nonzero : w.program.module.idBound ≠ 0) :
    t.type? (.int w.program.module.idBound) = none := by
  by_contra known
  obtain ⟨ty, known⟩ := Option.ne_none_iff_exists'.mp known
  obtain ⟨i, ⟨r, member, rfl⟩, result, -⟩ := (h.types t found).told _ ty known nonzero
  exact Int.lt_irrefl _ (h.below _ (Program.mem_idsOf.mpr ⟨r, member, result, nonzero⟩))

/-- A table takes the place of the one before. -/
theorem setTypes {t : TypeTable} (recorded : t.Recorded w.program)
    (annotated : ∀ v, (t.type? v).isSome = true → w.facts.annotations.isSome = true)
    (more : ∀ t', w.facts.types = some t' → ∀ v ty, t'.type? v = some ty → t.type? v = some ty) :
    w.Onward p { w with facts := { w.facts with types := some t } } := by
  refine ⟨⟨h.added, h.held, h.distinct, h.below, fun t' found => ?_, fun t' v found => ?_, h.constants⟩,
    (Onward.refl h).program, fun t' found => ⟨t, rfl, more t' found⟩⟩
  · exact Option.some.inj found ▸ recorded
  · exact Option.some.inj found ▸ annotated v

theorem setConstants {c : ConstantTable} (sound : c.Sound w.program) :
    w.Onward p { w with facts := { w.facts with constants := some c } } :=
  ⟨⟨h.added, h.held, h.distinct, h.below, h.types, h.annotated, fun _ found => Option.some.inj found ▸ sound⟩,
    (Onward.refl h).program, fun t found => ⟨t, found, fun _ _ known => known⟩⟩

/-- Nothing of this hangs on the facts that were found. -/
theorem forget : Continues p { w with facts := {} } :=
  ⟨h.added, h.held, h.distinct, h.below, nofun, nofun, nofun⟩

end Continues

end Workspace

end BlockTally
