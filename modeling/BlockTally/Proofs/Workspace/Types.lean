import BlockTally.Proofs.Workspace.TypeRequests
import BlockTally.Proofs.Workspace.Contracts

/-! Requests for types.

The id that a request answers with is declared, and stands for the type that was asked for. A type that has
no declaration is declared after its components, so its declaration uses only what is defined. What an answer stands for
hangs on its id being new, of which the steps of a request say nothing: declarations are followed as a whole here.
-/

set_option autoImplicit false

namespace BlockTally

/-! ### Lengths of arrays -/

def Wrapper.lengths : Wrapper → List Value
  | .array length => [length]
  | _ => []

theorem Wrapper.lengths_plain (form : Wrapper) : form.plain.lengths = form.lengths := by
  cases form <;> rfl

namespace Ty

mutual

def lengths : Ty → List Value
  | .atom .. => []
  | .wrap form component _ => form.lengths ++ lengths component
  | .struct members _ _ => listLengths members
  | .function result parameters _ => lengths result ++ listLengths parameters

def listLengths : List Ty → List Value
  | [] => []
  | ty :: rest => lengths ty ++ listLengths rest

end

mutual

theorem lengths_key : (ty : Ty) → ty.key.lengths = ty.lengths
  | .atom .. => by simp only [key]
  | .wrap form component _ => by simp only [key, lengths, form.lengths_plain, lengths_key component]
  | .struct members _ _ => by simp only [key, lengths, listLengths_keys members]
  | .function result parameters _ => by
      simp only [key, lengths, lengths_key result, listLengths_keys parameters]

theorem listLengths_keys : (tys : List Ty) → listLengths (keys tys) = listLengths tys
  | [] => rfl
  | ty :: rest => by simp only [keys, listLengths, lengths_key ty, listLengths_keys rest]

end

/-- What the declaration of a wrapped type uses. -/
theorem mem_usedIds_wrapDeclaration {component id : Id} {form : Wrapper} {v : Value}
    (used : v ∈ Instruction.usedIds
      { opcode := (wrapDeclaration component form).1, resultId := id
        operands := (wrapDeclaration component form).2 }) :
    v = .int component ∨ v ∈ form.lengths := by
  cases form with
  | array => exact List.mem_cons.mp used
  | vector | matrix | runtimeArray | pointer => exact .inl (List.mem_singleton.mp used)

theorem mem_usedIds_componentOperands {opcode : Opcode} {ids : List Id} {id : Id} {v : Value}
    (used : v ∈ Instruction.usedIds { opcode, resultId := id, operands := componentOperands ids }) :
    ∃ id ∈ ids, v = .int id := by
  replace used : v ∈ ((componentOperands ids).filter Operand.isId).map Operand.value := used
  simp only [componentOperands, List.mem_map, List.mem_filter] at used
  obtain ⟨_, ⟨⟨id, member, rfl⟩, -⟩, rfl⟩ := used
  exact ⟨id, member, rfl⟩

theorem usedIds_atomDeclaration {form : Atom} {declaration : Opcode × List Operand} (id : Id)
    (found : atomDeclaration? form = some declaration) :
    Instruction.usedIds { opcode := declaration.1, resultId := id, operands := declaration.2 } = [] := by
  cases form with
  | named => cases found
  | void | bool | integer | float =>
    obtain rfl := Option.some.inj found
    rfl

/-- The lengths that the declaration of the type itself refers to. -/
def ownLengths : Ty → List Value
  | .wrap form _ _ => form.lengths
  | _ => []

theorem ownLengths_subset : (ty : Ty) → ty.ownLengths ⊆ ty.lengths
  | .atom .. | .struct .. | .function .. => List.nil_subset _
  | .wrap .. => List.subset_append_left _ _

theorem lengths_of_component {ty inner : Ty} (member : inner ∈ ty.components) : inner.lengths ⊆ ty.lengths := by
  have among {tys : List Ty} (member : inner ∈ tys) : inner.lengths ⊆ listLengths tys := by
    induction tys with
    | nil => cases member
    | cons ty rest ih =>
      rcases List.mem_cons.mp member with rfl | member
      · exact List.subset_append_left _ _
      · exact List.Subset.trans (ih member) (List.subset_append_right _ _)
  cases ty with
  | atom => cases member
  | wrap form component ds =>
    obtain rfl := List.mem_singleton.mp member
    exact List.subset_append_right _ _
  | struct => exact among member
  | function => exact among member

/-- What a declaration refers to are the ids of components and lengths of arrays. -/
theorem DeclaredBy.mem_usedIds {stands : Id → Ty → Prop} {declaration : Opcode × List Operand} {ty : Ty} {id : Id}
    {v : Value} (declared : DeclaredBy stands declaration ty)
    (used : v ∈ Instruction.usedIds { opcode := declaration.1, resultId := id, operands := declaration.2 }) :
    v ∈ ty.ownLengths ∨ ∃ component inner, stands component inner ∧ v = .int component := by
  have among {opcode : Opcode} {ids : List Id} {tys : List Ty} (inner : List.Forall₂ stands ids tys)
      (used : v ∈ Instruction.usedIds { opcode, resultId := id, operands := componentOperands ids }) :
      ∃ component inner, stands component inner ∧ v = .int component := by
    obtain ⟨component, member, rfl⟩ := mem_usedIds_componentOperands used
    obtain ⟨index, bound, rfl⟩ := List.mem_iff_getElem.mp member
    exact ⟨_, _, inner.get bound (inner.length_eq ▸ bound), rfl⟩
  cases declared with
  | atom found =>
    rw [usedIds_atomDeclaration id found] at used
    cases used
  | @wrap form component ds component' inner =>
    rcases mem_usedIds_wrapDeclaration used with rfl | length
    · exact .inr ⟨_, _, inner, rfl⟩
    · exact .inl length
  | struct inner => exact .inr (among inner used)
  | function inner => exact .inr (among inner used)

theorem DeclaredBy.declaresType {stands : Id → Ty → Prop} {declaration : Opcode × List Operand} {ty : Ty}
    (declared : DeclaredBy stands declaration ty) : declaration.1.declaresType = true := by
  cases declared with
  | @atom form ds _ found => cases form <;> cases found <;> rfl
  | @wrap form component ds id inner => cases form <;> rfl
  | struct | function => rfl

end Ty

namespace Workspace

open Account Contract

variable {good : Prop} {w : Workspace}

/-! ### Reading the declared types -/

theorem HasRead.sound {t : TypeTable} (h : w.HasRead t) (distinct : w.program.resultIds.Nodup) :
    t.Sound fun id => w.program.Defines (.int id) := by
  have sublist : List.Sublist (w.program.idsOf w.program.declarations) w.program.resultIds :=
    w.program.idsOf_sublist (List.filter_sublist.trans w.program.typesValues_sublist)
  -- What is registered so far stands for the declarations read so far.
  have read := h.induct (fun done t => t.Sound (· ∈ w.program.idsOf done)) (TypeTable.Sound.empty _)
    fun done r rest t _ _ _ ty split held _ _ => held.next (split ▸ distinct.sublist sublist) ty
  exact read.mono fun id _ known => Program.defines_int.mpr (sublist.subset known)

theorem keeps_setTypes {t : TypeTable} (sound : good → t.Sound fun id => w.program.Defines (.int id))
    (more : good → ∀ t', w.facts.types = some t' → ∀ v ty, t'.type? v = some ty → t.type? v = some ty) :
    (requests good).Keeps (setTypes t) w fun _ w' =>
      w' = { w with facts := { w.facts with types := some t } } := by
  refine Keeps.modify ⟨.refl _, fun t' found => ⟨t, rfl, fun assumed => more assumed t' found⟩,
    fun assumed pending held => ?_⟩
  refine ⟨held.linked, held.numbered, fun t' found => ?_, held.constants⟩
  obtain rfl := Option.some.inj found
  exact sound assumed

/-- The table of types says what is declared; one that was found before is used again. -/
theorem keeps_needTypes (sane : w.Sane good) :
    (requests good).Keeps needTypes w fun t w' => w'.facts.types = some t ∧ w'.program = w.program ∧
      (∀ t', w.facts.types = some t' → t = t') ∧ (good → t.Sound fun id => w'.program.Defines (.int id)) := by
  unfold needTypes
  apply Keeps.bind_get
  cases found : w.facts.types with
  | some t =>
    refine Keeps.pure ⟨found, rfl, fun t' same => Option.some.inj same, fun assumed => ?_⟩
    obtain ⟨pending, sound⟩ := sane assumed
    exact sound.types t found
  | none =>
    refine Keeps.bind_edit (edits_of_finds finds_readTypes.with_move) fun t w₁ move answer => ?_
    obtain ⟨looked, read⟩ := answer
    obtain ⟨program, types, -⟩ := looks_of_finds looked
    have sound (assumed : good) : t.Sound fun id => w₁.program.Defines (.int id) := by
      obtain ⟨pending, held⟩ := move.1.sane sane assumed
      exact read.sound (List.nodup_append.mp held.linked.distinct).1
    refine (keeps_setTypes sound fun _ t' known => ?_).bind fun _ w₂ _ same => ?_
    · rw [types.trans found] at known
      cases known
    · obtain rfl := same
      exact Keeps.pure ⟨rfl, program, nofun, sound⟩

/-! ### Declaring a type -/

theorem Sound.nextBound {pending : List Id} (h : w.Sound pending)
    (free : w.program.module.idBound < maxIdBound) :
    Sound { w with program := w.program.nextBound } (w.program.module.idBound :: pending) :=
  h.extend ⟨Program.grows_nextBound free, rfl⟩ rfl rfl h.linked.nextBound fun _ member new => absurd member new

theorem advances_nextBound (free : w.program.module.idBound < maxIdBound) :
    w.Advances good { w with program := w.program.nextBound } :=
  .of_types ⟨Program.grows_nextBound free, rfl⟩ rfl fun _ _ sound => (sound.nextBound free).give_up [_]

/-- A declaration takes the next id, so nothing pending is lost. -/
theorem advances_declared (free : w.program.module.idBound < maxIdBound) {i : Instruction}
    (result : i.resultId = w.program.module.idBound)
    (known : good → ∀ v ∈ i.usedIds, w.program.Defines v) (uses : Option Uses) :
    (edits good).moves w { program := w.program.declared i, facts := { w.facts with uses } } := by
  have extended : w.program.Extends (w.program.declared i) := ⟨Program.grows_declared free i, rfl⟩
  refine ⟨.of_types extended rfl fun assumed pending sound => ?_, rfl, rfl⟩
  refine sound.extend extended rfl rfl (sound.linked.declared result (known assumed) free) ?_
  intro r member new _
  -- Only the new declaration can be a constant that was not numbered before.
  obtain rfl := ((w.program.nextBound.made i).mem_typesValues_appended member).resolve_left new
  have inst := w.program.inst_declared i
  rw [inst, result]
  exact Int.ne_of_gt sound.linked.positive

theorem keeps_registerType {id : Id} (ty : Ty) (sane : w.Sane good) (read : w.facts.types.isSome = true)
    (known : good → w.program.Defines (.int id))
    (fresh : good → ∀ t, w.facts.types = some t → t.type? (.int id) = none) :
    (requests good).Keeps (registerType id ty) w fun _ w' => good → w'.Knows id ty := by
  unfold registerType
  obtain ⟨t, found⟩ := Option.isSome_iff_exists.mp read
  apply (keeps_needTypes sane).bind
  intro t' w₁ _ answer
  obtain ⟨answered, program, first, sound⟩ := answer
  obtain rfl := first t found
  have known' : good → w₁.program.Defines (.int id) := program ▸ known
  refine (keeps_setTypes (fun assumed => ?_) fun assumed t₀ before v ty₀ stated => ?_).mono
    fun _ w₂ _ same assumed => ?_
  · refine ((sound assumed).register ty fun _ => fresh assumed _ found).mono fun other _ held => ?_
    rcases held with held | rfl
    · exact held
    · exact known' assumed
  -- The id is new, so its type takes no other's place.
  · obtain rfl := Option.some.inj (answered.symm.trans before)
    have new := fresh assumed _ found
    rw [TypeTable.type?_register, if_neg]
    · exact stated
    · rintro rfl
      rw [new] at stated
      cases stated
  · subst same
    refine ⟨known' assumed, _, ty, rfl, ?_, rfl⟩
    simp [TypeTable.register, TypeTable.type?, Table.get?_set]

/-- What follows once a type is declared: its decorations are attached, and the table is told. -/
theorem keeps_introduce (id : Id) (ty : Ty) (sane : w.Sane good) (read : w.facts.types.isSome = true)
    (known : good → w.program.Defines (.int id))
    (fresh : good → ∀ t, w.facts.types = some t → t.type? (.int id) = none) :
    (requests good).Keeps (do
      discard needAnnotations
      ty.decorations.forM fun d => discard <| decorate (.int id) d
      ty.memberDecorations.forM fun d => discard <| decorateMember (.int id) d
      registerType id ty
      return id) w fun answer w' => good → w'.Knows answer ty := by
  apply Keeps.bind_edit (edits_of_finds finds_needAnnotations).discard
  intro _ w₁ move₁ _
  have sane₁ := move₁.1.sane sane
  have known₁ := move₁.1.defines sane known
  apply Keeps.bind_edit (edits_of_notes sane₁ known₁ (notes_decorations _ _))
  intro _ w₂ move₂ _
  have sane₂ := move₂.1.sane sane₁
  have known₂ := move₂.1.defines sane₁ known₁
  apply Keeps.bind_edit (edits_of_notes sane₂ known₂ (notes_memberDecorations _ _))
  intro _ w₃ move₃ _
  have types : w₃.facts.types = w.facts.types := move₃.2.1.trans (move₂.2.1.trans move₁.2.1)
  rw [← types] at read fresh
  have registered := keeps_registerType ty (move₃.1.sane sane₂) read (move₃.1.defines sane₂ known₂) fresh
  exact registered.bind fun _ w₄ _ knows => Keeps.pure knows

theorem keeps_declareNew {ty : Ty} {declaration : Opcode × List Operand} (sane : w.Sane good)
    (read : w.facts.types.isSome = true)
    (known : good → ∀ v ∈ Instruction.usedIds
      { opcode := declaration.1, resultId := w.program.module.idBound, operands := declaration.2 },
      w.program.Defines v) :
    (requests good).Keeps (declareNew ty declaration) w fun id w' => good → w'.Knows id ty := by
  unfold declareNew
  refine Change.After.bind (after_takeId (fun full => ⟨.refl w, fun _ => full⟩) fun free => ?_)
  split
  -- The id 0 is refused after it was taken, so the bound has moved all the same.
  · have stopped : (requests good).Keeps (do
        let text ← liftM ty.text
        throw (.invariant (.nullType text)) : Action Id) { w with program := w.program.nextBound }
        fun id w' => good → w'.Knows id ty :=
      (Keeps.check ty.text_onlyFaults.sparesIds).seq fun _ _ _ => Keeps.throw nofun
    exact stopped.after_move (advances_nextBound free)
  · refine Change.After.bind (after_newInst ?_)
    refine Change.After.bind (after_addGlobal fun uses => ?_)
    let i : Instruction :=
      { opcode := declaration.1, resultId := w.program.module.idBound, operands := declaration.2 }
    let w₁ : Workspace := { program := w.program.declared i, facts := { w.facts with uses } }
    have move : (edits good).moves w w₁ := advances_declared free rfl known uses
    have defined : good → w₁.program.Defines (.int i.resultId) := fun assumed => by
      obtain ⟨pending, sound⟩ := sane assumed
      exact Program.Declares.defines ⟨_, w.program.mem_declared i, w.program.inst_declared i⟩
        (Int.ne_of_gt sound.linked.positive)
    -- All ids that the table knows are below the bound, and the new one was the bound.
    have fresh : good → ∀ t, w₁.facts.types = some t → t.type? (.int i.resultId) = none := by
      intro assumed t found
      obtain ⟨pending, sound⟩ := sane assumed
      by_contra registered
      obtain ⟨ty', registered⟩ := Option.ne_none_iff_exists'.mp registered
      have old := (sound.types t found).ids _ _ registered (Int.ne_of_gt sound.linked.positive)
      have below := sound.linked.bounded _ (List.mem_append_left _ (Program.defines_int.mp old))
      exact Int.lt_irrefl _ below.2
    exact (keeps_introduce i.resultId ty (move.1.sane sane) read defined fresh).after_move move.1

/-! ### Requests -/

/-- Types are served as long as the lengths of arrays are defined. -/
theorem servesTypes_requests : ServesTypes (requests good).account (Sane good)
    (fun w => w.Sane good ∧ w.facts.types.isSome = true) (fun w ty => good → ∀ v ∈ ty.lengths, w.program.Defines v)
    (fun w id ty => good → w.Knows id ty) where
  start ready := ready.1
  kept ready move := by
    obtain ⟨t, found⟩ := Option.isSome_iff_exists.mp ready.2
    obtain ⟨t', found', -⟩ := move.types t found
    exact ⟨move.sane ready.1, by rw [found']; rfl⟩
  still sane move lengths assumed v member := move.defines sane (fun assumed => lengths assumed v member) assumed
  component lengths inner member assumed v length := lengths assumed v (Ty.lengths_of_component member length)
  later ready move known := move.knows ready.1 known
  found sane := (keeps_needTypes sane).mono fun t w' move answer => by
    obtain ⟨found, -, -, sound⟩ := answer
    refine ⟨⟨move.sane sane, by rw [found]; rfl⟩, fun ty result assumed => ?_⟩
    obtain ⟨defined, ty', type, same⟩ := (sound assumed).of_id result
    exact ⟨defined, t, ty', found, type, same⟩
  declared ready lengths declared := by
    refine keeps_declareNew ready.1 ready.2 fun assumed v used => ?_
    rcases declared.mem_usedIds used with length | ⟨component, inner, stands, rfl⟩
    · exact lengths assumed v (Ty.ownLengths_subset _ length)
    · exact (stands assumed).1

/-- A request for a type answers with an id that stands for it. -/
theorem keeps_typeId (ty : Ty) (sane : w.Sane good) (lengths : good → ∀ v ∈ ty.lengths, w.program.Defines v) :
    (requests good).Keeps (typeId ty) w fun id w' => good → w'.Knows id ty :=
  servesTypes_requests.keeps_typeId ty sane lengths

theorem Advances.lengths {w' : Workspace} (h : w.Advances good w') (sane : w.Sane good) {lengths : List Value}
    (known : good → ∀ v ∈ lengths, w.program.Defines v) : good → ∀ v ∈ lengths, w'.program.Defines v :=
  fun assumed v member => h.defines sane (fun assumed => known assumed v member) assumed

theorem keeps_typeOf {id : Id} {ty : Ty} (sane : w.Sane good) (known : good → w.Knows id ty) :
    (requests good).Keeps (typeOf (.int id)) w fun answer _ => good → answer.key = ty.key := by
  unfold typeOf
  apply (keeps_needTypes sane).bind
  intro t w' _ read
  obtain ⟨-, -, first, -⟩ := read
  split
  next answer found =>
    apply Keeps.pure
    intro assumed
    obtain ⟨-, t', ty', types, type, same⟩ := known assumed
    obtain rfl := first t' types
    obtain rfl := Option.some.inj (found.symm.trans type)
    exact same
  next => exact Keeps.throw nofun

theorem keeps_pointerId {id : Id} {ty : Ty} (storage : Value) (sane : w.Sane good)
    (known : good → w.Knows id ty) (lengths : good → ∀ v ∈ ty.lengths, w.program.Defines v) :
    (requests good).Keeps (pointerId (.int id) storage) w fun answer w' =>
      good → w'.program.Defines (.int answer) := by
  unfold pointerId
  apply (keeps_typeOf sane known).bind
  intro pointee w₁ move same
  apply (Keeps.check (Ty.checkStorage_onlyFaults _).sparesIds).bind
  intro _ w₂ _ answer
  obtain ⟨-, rfl⟩ := answer
  have component : good → ∀ v ∈ (Ty.pointer pointee storage).lengths, w₂.program.Defines v := by
    intro assumed
    -- The pointee was looked up by its id, so only its key is known; lengths are part of the key.
    have equal : (Ty.pointer pointee storage).lengths = ty.lengths := by
      rw [← ty.lengths_key, ← same assumed, pointee.lengths_key]
      rfl
    rw [equal]
    exact move.lengths sane lengths assumed
  exact (keeps_typeId _ (move.sane sane) component).mono fun _ _ _ knows assumed => (knows assumed).1

end Workspace

end BlockTally
