import BlockTally.Proofs.Workspace.Interning
import BlockTally.Proofs.Workspace.Types

/-! Requests for types that are read again.

The id that a request for a type answers with stands for the type in a fresh reading of the program: either it did
before, or the type was declared with its decorations, after its components.
-/

set_option autoImplicit false

namespace BlockTally

namespace Workspace

structure Interned (w : Workspace) : Prop where
  bounded : w.program.Bounded
  current : w.Current

structure Steps (size : Nat) (w w' : Workspace) : Prop where
  interned : w'.Interned
  later : w.program.Later size w'.program
  types : w.facts.types.isSome = true → w'.facts.types.isSome = true
  constants : w.facts.constants.isSome = true → w'.facts.constants.isSome = true

variable {w w' w'' : Workspace} {size : Nat} {ty : Ty}

theorem Steps.trans (first : w.Steps size w') (second : w'.Steps size w'') : w.Steps size w'' where
  interned := second.interned
  later := first.later.trans second.later
  types known := second.types (first.types known)
  constants known := second.constants (first.constants known)

theorem Steps.mono {larger : Nat} (h : w.Steps size w') (le : size ≤ larger) : w.Steps larger w' :=
  ⟨h.interned, h.later.mono le, h.types, h.constants⟩

theorem Interned.steps (h : w.Interned) (size : Nat) : w.Steps size w :=
  ⟨h, .refl size _, id, id⟩

theorem Interned.same (h : w.Interned) (program : w'.program = w.program) (current : w'.Current) : w'.Interned :=
  ⟨program ▸ h.bounded, current⟩

theorem then_needTypes (size : Nat) (h : w.Interned) : Then needTypes w fun t w' =>
    w.Steps size w' ∧ w'.program = w.program ∧ w'.facts.types.isSome = true ∧
      ∃ t', w'.program.typeTable = .ok t' ∧ t.Agrees t' := by
  refine .mono (after_needTypes h.current) (fun t w' held => ?_) fun _ _ _ => True.intro
  obtain ⟨read, current, program, types, constants⟩ := held
  have known : w'.facts.types.isSome = true := by rw [types]; rfl
  refine ⟨⟨h.same program current, program ▸ .refl size _, fun _ => known, fun known => constants ▸ known⟩, program,
    known, program ▸ read⟩

/-- A type that is not known is asked for further. -/
theorem then_known {make : Action Id} (h : w.Interned)
    (making : ∀ w' t, w'.Interned → w'.facts.types.isSome = true → w'.program.typeTable = .ok t →
      t.byType.get? ty.key = none → Then make w' fun id w'' => w'.Steps ty.size w'' ∧ w''.program.Stands id ty) :
    Then (known ty make) w fun id w' => w.Steps ty.size w' ∧ w'.program.Stands id ty := by
  unfold known
  refine (then_needTypes ty.size h).bind fun t w' held => ?_
  obtain ⟨steps, -, known, t', read, agrees⟩ := held
  obtain ⟨sound, nonzero⟩ := steps.interned.bounded.table read
  dsimp only
  rw [agrees.id]
  split
  next result =>
    obtain ⟨-, found⟩ := sound.of_id result
    exact .pure ⟨steps, t', read, result, rfl, found⟩
  next unknown =>
    have absent : t'.byType.get? ty.key = none := by
      by_contra found
      obtain ⟨entry, found⟩ := Option.ne_none_iff_exists'.mp found
      refine unknown fun zero => nonzero _ _ found ?_
      simpa [TypeTable.id, found] using zero
    refine .mono (making w' t' steps.interned known read absent) (fun id w'' held => ?_) fun _ _ _ => True.intro
    exact ⟨steps.trans held.1, held.2⟩

/-! ### Declaring a type -/

/-- What is known of the annotations of an id once a type was attached to it. -/
def given (ty : Ty) : Opcode → List Decoration :=
  Function.update (Function.update (fun _ => []) .decorate ty.decorations) .memberDecorate ty.memberDecorations

theorem then_registerType {t : TypeTable} (id : Id) (ty : Ty) (found : w.facts.types = some t) :
    Then (registerType id ty) w fun _ w' =>
      w' = { w with facts := { w.facts with types := some (t.register id ty) } } := by
  unfold registerType
  refine (then_needTypes_known found).bind fun t' w' held => ?_
  obtain ⟨rfl, rfl⟩ := held
  exact .modify rfl

/-- The decorations of a type are attached to its new id. -/
theorem then_introduce {t : TypeTable} {id : Id} (formed : ty.Formed) (held : w.program.GlobalsHeld)
    (known : ∀ a, w.facts.annotations = some a → Annotations.ofProgram w.program = .ok a)
    (none : ∀ r ∈ w.program.module.annotations, (w.program.inst r).target? ≠ some (.int id))
    (found : w.facts.types = some t) :
    Then (do
      discard needAnnotations
      ty.decorations.forM fun d => discard <| decorate (.int id) d
      ty.memberDecorations.forM fun d => discard <| decorateMember (.int id) d
      registerType id ty
      return id) w fun answer w' => answer = id ∧ ∃ w'', Attached w id (given ty) w'' ∧
        w' = { w'' with facts := { w''.facts with types := some (t.register id ty) } } := by
  have own := formed.settled
  have members := formed.settled_members
  -- Nothing is attached to the id at first; each decoration then comes behind those before.
  have needed : Then needAnnotations w fun _ => Attached w id fun _ => [] := by
    refine .mono (after_needAnnotations known) (fun a w' held => ?_) fun _ _ _ => True.intro
    obtain ⟨read, rfl⟩ := held
    refine ⟨⟨[], ⟨(List.append_nil _).symm, (List.append_nil _).symm, fun _ _ => rfl, fun _ _ => rfl⟩, nofun⟩, held,
      rfl, ⟨a, rfl, read, fun opcode => ?_⟩, rfl, rfl⟩
    have on : a.on (.int id) = [] := by
      rw [Annotations.on_ofProgram read]
      exact List.filter_eq_nil_iff.mpr fun r member => by simpa using none r member
    simp [Annotations.valuesOn, on]
  refine needed.discard.bind fun _ w₁ attached₁ => ?_
  refine (attached₁.forM (fun d member given w h => h.decorate (own.integers d member)) own.distinct).bind
    fun _ w₂ attached₂ => ?_
  refine (attached₂.forM (fun d member given w h => h.decorateMember (members.integers d member)) ?_).bind
    fun _ w₃ attached₃ => ?_
  · exact members.distinct
  have found' : w₃.facts.types = some t := attached₃.types.trans found
  refine (then_registerType id ty found').bind fun _ w₄ same => .pure ⟨rfl, w₃, ?_, same⟩
  exact attached₃

/-- What is declared under the next id has the decorations that were attached to it. -/
theorem Attached.declared {declaration : Opcode × List Operand} {start : Workspace} {p : Program} {i : Instruction}
    (held : p.GlobalsHeld) (declares : declaration.1.declaresType = true)
    (form : i = { opcode := declaration.1, resultId := p.module.idBound, operands := declaration.2 })
    (nonzero : p.module.idBound ≠ 0) (starts : start.program = p.declared i)
    (attached : Attached start p.module.idBound (given ty) w') :
    ∃ notes a, p.Declared w'.program ⟨p.instructions.size⟩ notes ∧ w'.program.inst ⟨p.instructions.size⟩ = i ∧
      w'.facts.annotations = some a ∧ Annotations.ofProgram w'.program = .ok a ∧
      Annotations.ofType w'.program a (.int p.module.idBound) = (ty.decorations, ty.memberDecorations) := by
  obtain ⟨adds, -⟩ := held.declared i
  obtain ⟨notes, more, targets⟩ := attached.adds
  obtain ⟨a, found, read, onId⟩ := attached.annotated
  have bound := attached.bound
  rw [starts] at more bound
  have inst : w'.program.inst ⟨p.instructions.size⟩ = i := (more.global _ (p.mem_declared i)).trans (p.inst_declared i)
  refine ⟨notes, a, ?_, inst, found, read, by rw [Annotations.ofType_eq read, onId, onId]; simp [given]⟩
  refine ⟨adds.trans more, attached.held, bound, by rw [inst, form], nonzero, fun constant => ?_, targets⟩
  rw [inst, form] at constant
  rw [show declaration.1 = .constant from constant] at declares
  -- A declaration of a type is no constant.
  cases declares

/-- A new declaration that has its decorations is interned like the others. -/
theorem Interned.introduced {declaration : Opcode × List Operand} {t live : TypeTable} {uses : Option Uses}
    {i : Instruction} (h : w.Interned) (found : w.facts.types = some live) (read : w.program.typeTable = .ok t)
    (absent : t.byType.get? ty.key = none) (spells : Ty.Spells t.type? declaration ty)
    (form : i = { opcode := declaration.1, resultId := w.program.module.idBound, operands := declaration.2 })
    (nonzero : w.program.module.idBound ≠ 0)
    (attached : Attached { program := w.program.declared i, facts := { w.facts with uses } }
      w.program.module.idBound (given ty) w') :
    w.Steps ty.size { program := w'.program
                      facts := { w'.facts with types := some (live.register w.program.module.idBound ty) } } ∧
      w'.program.Stands w.program.module.idBound ty := by
  obtain ⟨notes, a, declared, inst, found', read', onId⟩ :=
    attached.declared h.bounded.held spells.declares form nonzero rfl
  obtain ⟨ty', key, types, constants⟩ := declared.type h.bounded read (inst.trans form) spells read' onId
  -- The live table registers the type as it was asked for, a fresh reading as it is spelled. The two have the same
  -- key.
  refine ⟨⟨⟨declared.bounded h.bounded, ⟨?_, ?_, ?_⟩⟩, ⟨?_, constants⟩, fun _ => rfl, fun known => ?_⟩, ?_⟩
  · intro b same
    obtain rfl := Option.some.inj (found'.symm.trans same)
    exact read'
  · intro t' same
    obtain rfl := Option.some.inj same
    obtain ⟨t₀, read₀, agrees⟩ := h.current.types live found
    obtain rfl := Except.ok.inj (read.symm.trans read₀)
    exact ⟨_, types, agrees.register key.symm _⟩
  · intro c same
    obtain ⟨c', table, agrees⟩ := h.current.constants c (attached.constants.symm.trans same)
    exact ⟨c', constants c' table, agrees⟩
  · intro t₀ read₀
    obtain rfl := Except.ok.inj (read.symm.trans read₀)
    have size : ty'.size = ty.size := by rw [← ty'.size_key, key, ty.size_key]
    exact ⟨_, types, size ▸ .register (h.bounded.fresh read nonzero)⟩
  · rw [← show w'.facts.constants = w.facts.constants from attached.constants] at known
    exact known
  · exact Program.stands_register types nonzero absent key

theorem then_declareNew {declaration : Opcode × List Operand} {t : TypeTable} (h : w.Interned)
    (known : w.facts.types.isSome = true) (read : w.program.typeTable = .ok t)
    (absent : t.byType.get? ty.key = none) (formed : ty.Formed) (spells : Ty.Spells t.type? declaration ty) :
    Then (declareNew ty declaration) w fun id w' => w.Steps ty.size w' ∧ w'.program.Stands id ty := by
  unfold declareNew
  refine Change.After.bind (after_takeId (fun _ => True.intro) fun free => ?_)
  split
  · exact Then.check fun _ _ => .throw True.intro
  next nonzero =>
    refine Change.After.bind (after_newInst (Change.After.bind (after_addGlobal fun uses => ?_)))
    let i : Instruction :=
      { opcode := declaration.1, resultId := w.program.module.idBound, operands := declaration.2 }
    obtain ⟨live, found⟩ := Option.isSome_iff_exists.mp known
    obtain ⟨adds, held⟩ := h.bounded.held.declared i
    have annotations := adds.ofProgram_eq rfl
    -- No annotation has the id that was the bound as its target.
    have none : ∀ n ∈ w.program.module.annotations,
        ((w.program.declared i).inst n).target? ≠ some (.int w.program.module.idBound) := by
      intro n member same
      rw [adds.note n member] at same
      exact Int.lt_irrefl _ (h.bounded.targets n member _ same)
    have introduced := then_introduce (w := { program := w.program.declared i, facts := { w.facts with uses } })
      formed held (fun a known => annotations.trans (h.current.annotations a known)) none found
    refine .mono introduced (fun answer w' held => ?_) fun _ _ _ => True.intro
    obtain ⟨rfl, w'', attached, rfl⟩ := held
    exact h.introduced found read absent spells rfl nonzero attached

/-! ### Requests for types -/

/-- A type is declared after its components, which are smaller. -/
theorem then_declareAfter {declaration : Opcode × List Operand} {t : TypeTable} (steps : w.Steps size w')
    (smaller : size < ty.size) (known : w.facts.types.isSome = true) (read : w.program.typeTable = .ok t)
    (absent : t.byType.get? ty.key = none) (formed : ty.Formed)
    (spells : ∀ t', w'.program.typeTable = .ok t' → Ty.Spells t'.type? declaration ty) :
    Then (declareNew ty declaration) w' fun id w'' => w.Steps ty.size w'' ∧ w''.program.Stands id ty := by
  obtain ⟨t', read', extends'⟩ := steps.later.types t read
  have absent' := extends'.absent absent smaller
  have declared := then_declareNew steps.interned (steps.types known) read' absent' formed (spells t' read')
  refine .mono declared (fun id w'' held => ?_) fun _ _ _ => True.intro
  exact ⟨(steps.mono (Nat.le_of_lt smaller)).trans held.1, held.2⟩

theorem knownAs_of_stands {p : Program} {t : TypeTable} {tys : List Ty} {ids : List Id}
    (h : List.Forall₂ p.Stands ids tys) (read : p.typeTable = .ok t) : List.Forall₂ (Ty.KnownAs t.type?) ids tys := by
  refine h.imp fun id ty stands => ?_
  obtain ⟨t', read', -, -, known⟩ := stands
  obtain rfl := Except.ok.inj (read.symm.trans read')
  exact known

mutual

/-- A request for a type answers with an id that stands for it. -/
theorem then_typeId : (ty : Ty) → {w : Workspace} → ty.Formed → w.Interned →
    Then (typeId ty) w fun id w' => w.Steps ty.size w' ∧ w'.program.Stands id ty
  | .atom form ds, w, formed, h => by
      unfold typeId
      -- A type that is found stands already, so only a type that is absent is declared.
      refine then_known h fun w' t interned known read absent => ?_
      refine Then.check fun declaration found => ?_
      exact then_declareNew interned known read absent formed (Ty.spells_atom formed (atomDeclaration_ok found))
  | .wrap form component ds, w, formed, h => by
      unfold typeId
      refine then_known h fun w' t interned known read absent => ?_
      refine (then_typeId component formed.2.1 interned).bind fun id w₁ held => ?_
      obtain ⟨steps, stands⟩ := held
      refine then_declareAfter steps (Nat.lt_succ_self _) known read absent formed fun t' read' => ?_
      have inner := knownAs_of_stands (.cons stands .nil) read'
      cases inner with
      | cons inner _ => exact Ty.spells_wrap formed.1 formed.2.2 inner
  | .struct members mds ds, w, formed, h => by
      unfold typeId
      refine then_known h fun w' t interned known read absent => ?_
      refine (then_typeIds members formed.1 interned).bind fun ids w₁ held => ?_
      obtain ⟨steps, stand⟩ := held
      refine then_declareAfter steps (Nat.lt_succ_self _) known read absent formed fun t' read' => ?_
      exact Ty.spells_struct formed.2.2 formed.2.1 (knownAs_of_stands stand read')
  | .function result parameters ds, w, formed, h => by
      unfold typeId
      refine then_known h fun w' t interned known read absent => ?_
      refine (then_typeId result formed.1 interned).bind fun id w₁ held => ?_
      obtain ⟨steps, stands⟩ := held
      refine (then_typeIds parameters formed.2.1 steps.interned).bind fun ids w₂ held => ?_
      obtain ⟨steps', stand⟩ := held
      have both := (steps.mono (Nat.le_add_right _ _)).trans (steps'.mono (Nat.le_add_left _ _))
      -- The first component still stands for its type after the others were asked for.
      refine then_declareAfter both (Nat.lt_succ_self _) known read absent formed fun t' read' => ?_
      exact Ty.spells_function formed.2.2 (knownAs_of_stands (.cons (stands.later steps'.later) stand) read')

theorem then_typeIds : (tys : List Ty) → {w : Workspace} → Ty.AllFormed tys → w.Interned →
    Then (typeIds tys) w fun ids w' => w.Steps (Ty.sizes tys) w' ∧ List.Forall₂ w'.program.Stands ids tys
  | [], w, _, h => .pure ⟨h.steps _, .nil⟩
  | ty :: rest, w, formed, h => by
      unfold typeIds
      refine (then_typeId ty formed.1 h).bind fun id w₁ held => ?_
      obtain ⟨steps, stands⟩ := held
      refine (then_typeIds rest formed.2 steps.interned).bind fun ids w₂ held => .pure ?_
      obtain ⟨steps', stand⟩ := held
      refine ⟨(steps.mono (Nat.le_add_right _ _)).trans (steps'.mono (Nat.le_add_left _ _)), ?_⟩
      exact .cons (stands.later steps'.later) stand

end

end Workspace

end BlockTally
