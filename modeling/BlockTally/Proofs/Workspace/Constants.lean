import BlockTally.Proofs.Workspace.Types

/-! Requests for constants: the answer is the id of a declared constant with the requested value. -/

set_option autoImplicit false

namespace BlockTally.Workspace

open Account Contract

variable {good : Prop} {w : Workspace}

theorem readConstant_sound {p : Program} {types : TypeTable} {t : ConstantTable} {r : InstRef} (h : t.Sound p)
    (member : r ∈ p.module.typesValues) : (readConstant p types t r).Sound p := by
  unfold readConstant
  dsimp only
  split
  next ty operand _ operands =>
    split
    next constant =>
      refine h.register ty ⟨p.inst r, ⟨r, member, rfl⟩, constant, rfl, ?_⟩
      rw [operands]
      rfl
    next => exact h
  next => exact h

theorem readConstants_sound {p : Program} (types : TypeTable) {t : ConstantTable} (refs : List InstRef)
    (h : t.Sound p) (listed : refs ⊆ p.module.typesValues) : (refs.foldl (readConstant p types) t).Sound p := by
  induction refs generalizing t with
  | nil => exact h
  | cons r rest ih =>
    rw [List.cons_subset] at listed
    exact ih (readConstant_sound h listed.1) listed.2

theorem keeps_setConstants {t : ConstantTable} (sound : good → t.Sound w.program) :
    (requests good).Keeps (setConstants t) w fun _ w' =>
      w' = { w with facts := { w.facts with constants := some t } } := by
  refine Keeps.modify (.of_types (.refl _) rfl fun assumed pending held => ?_)
  refine ⟨held.linked, held.numbered, held.types, fun t' found => ?_⟩
  obtain rfl := Option.some.inj found
  exact sound assumed

theorem keeps_needConstants (sane : w.Sane good) :
    (requests good).Keeps needConstants w fun t w' => good → t.Sound w'.program := by
  unfold needConstants
  apply Keeps.bind_get
  cases found : w.facts.constants with
  | some t =>
    apply Keeps.pure
    intro assumed
    obtain ⟨pending, sound⟩ := sane assumed
    exact sound.constants t found
  | none =>
    apply (keeps_needTypes sane).seq
    intro types w' _
    apply Keeps.bind_get
    have sound := readConstants_sound types w'.program.module.typesValues
      (ConstantTable.Sound.empty w'.program) (List.Subset.refl _)
    refine (keeps_setConstants fun _ => sound).bind fun _ _ _ same => ?_
    subst same
    exact Keeps.pure fun _ => sound

def constantDeclaration (typeId id : Id) (value : Value) : Instruction :=
  { opcode := .constant, typeId, resultId := id, operands := [⟨.literalNumber, value⟩] }

theorem mem_usedIds_constantDeclaration {typeId id : Id} {value v : Value}
    (used : v ∈ (constantDeclaration typeId id value).usedIds) : v = .int typeId := by
  unfold constantDeclaration Instruction.usedIds at used
  split at used
  · exact List.mem_singleton.mp used
  · cases used

/-- A request for a constant answers with an id that is declared as one with the value. -/
theorem keeps_constantId {ty : Ty} (value : Value) (sane : w.Sane good)
    (lengths : good → ∀ v ∈ ty.lengths, w.program.Defines v) :
    (requests good).Keeps (constantId ty value) w fun id w' => good → w'.program.HasConstant id value := by
  unfold constantId
  apply (keeps_needConstants sane).bind
  intro constants w₁ move₁ sound
  apply (Keeps.check (checkRange_sparesIds ty value)).bind
  intro _ w₂ _ answer
  obtain ⟨-, rfl⟩ := answer
  have sane₂ := move₁.sane sane
  split
  next id found => exact Keeps.pure fun assumed => (sound assumed).of_id found
  next =>
    apply (keeps_typeId ty sane₂ (move₁.lengths sane lengths)).bind
    intro typeId w₃ move₃ known
    have sane₃ := move₃.sane sane₂
    refine Change.After.bind (after_takeId (fun full => ⟨.refl _, fun _ => full⟩) fun free => ?_)
    split
    -- As with types, the id is taken before it is refused.
    · have stopped : (requests good).Keeps (throw (.invariant (.nullConstant value)) : Action Id)
          { w₃ with program := w₃.program.nextBound } fun id w' => good → w'.program.HasConstant id value :=
        Keeps.throw nofun
      exact stopped.after_move (advances_nextBound free)
    · refine Change.After.bind (after_newInst ?_)
      refine Change.After.bind (after_addGlobal fun uses => ?_)
      let i := constantDeclaration typeId w₃.program.module.idBound value
      let w₄ : Workspace := { program := w₃.program.declared i, facts := { w₃.facts with uses } }
      have move₄ : (edits good).moves w₃ w₄ := by
        refine advances_declared free rfl (fun assumed v used => ?_) uses
        obtain rfl := mem_usedIds_constantDeclaration used
        exact (known assumed).1
      have declared : w₄.program.HasConstant i.resultId value :=
        ⟨i, ⟨_, w₃.program.mem_declared i, w₃.program.inst_declared i⟩, rfl, rfl, rfl⟩
      have sane₄ := move₄.1.sane sane₃
      have registered : (requests good).Keeps (do
          setConstants ((← needConstants).register ty value i.resultId)
          return i.resultId) w₄ fun id w' => good → w'.program.HasConstant id value := by
        apply (keeps_needConstants sane₄).bind
        intro t w₅ move₅ sound
        have declared₅ := move₅.hasConstant sane₄ fun _ => declared
        refine (keeps_setConstants fun assumed => (sound assumed).register ty (declared₅ assumed)).bind ?_
        intro _ w₆ _ same
        subst same
        exact Keeps.pure declared₅
      exact registered.after_move move₄.1

theorem keeps_uintConstantId (value width : Value) (sane : w.Sane good) :
    (requests good).Keeps (uintConstantId value width) w fun id w' => good → w'.program.HasConstant id value :=
  keeps_constantId value sane fun _ => nofun

end BlockTally.Workspace
