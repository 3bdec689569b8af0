import BlockTally.Proofs.Ty.Meaning
import BlockTally.Proofs.Workspace.Constants

/-! What the steps of a request go by.

The steps of a request for a type or a constant are told apart further here: where the table of types comes from, which
ids a declaration refers to, and what is known of a type when it is registered. Arrays can only have the lengths that
are given, since nothing else is known of these ids.
-/

set_option autoImplicit false

namespace BlockTally

def TypeTable.Holds (t : TypeTable) (id : Id) : Prop :=
  (t.type? (.int id)).isSome = true ∨ ∃ key entry, t.byType.get? key = some entry ∧ entry.id = id

namespace TypeTable

variable {t : TypeTable} {id other : Id} {ty ty' : Ty}

/-- What a table hands out it goes on to hand out. -/
theorem byType_register {key : Ty} {entry : Entry} (found : t.byType.get? key = some entry) :
    (t.register other ty').byType.get? key = some entry := by
  simp only [register, Table.get?_setIfNew]
  split
  next same => rw [same, found, Option.getD_some]
  next => exact found

/-- What a table hands out it has handed out before, or it is the type that was registered last. -/
theorem of_byType_register {key : Ty} {entry : Entry} (found : (t.register id ty).byType.get? key = some entry) :
    t.byType.get? key = some entry ∨ key = ty.key ∧ entry = ⟨ty, id⟩ := by
  simp only [register, Table.get?_setIfNew] at found
  split at found
  next same =>
    cases old : t.byType.get? ty.key with
    | none =>
      rw [old] at found
      exact .inr ⟨same.symm, (Option.some.inj found).symm⟩
    | some first =>
      rw [old] at found
      exact .inl (by rw [← same, old]; exact found)
  next => exact .inl found

theorem Holds.register (h : t.Holds id) : (t.register other ty').Holds id := by
  rcases h with known | ⟨key, entry, found, same⟩
  · refine .inl ?_
    simp only [TypeTable.register, type?, Table.get?_set] at known ⊢
    split
    · rfl
    · exact known
  · exact .inr ⟨key, entry, byType_register found, same⟩

theorem holds_register : (t.register id ty).Holds id :=
  .inl (by simp [register, type?, Table.get?_set])

end TypeTable

namespace Workspace

open Account Contract

def HoldsType (w : Workspace) (id : Id) : Prop :=
  id ≠ 0 ∧ ∃ t, w.facts.types = some t ∧ t.Holds id

/-- One step of a request for a type, a constant or a decoration. -/
inductive Ask (lengths : Value → Prop) (w : Workspace) : Workspace → Prop where
  | note {target : Value} {w' : Workspace} (note : w.Note target w') : Ask lengths w w'
  | types {t : TypeTable} (unread : w.facts.types = none) (read : w.HasRead t) :
      Ask lengths w { w with facts := { w.facts with types := some t } }
  | constants (c : ConstantTable) : Ask lengths w { w with facts := { w.facts with constants := some c } }
  /-- A type or a constant is declared under the next id. -/
  | declare {i : Instruction} (free : w.program.module.idBound < maxIdBound)
      (result : i.resultId = w.program.module.idBound) (nonzero : i.resultId ≠ 0) (constant : i.opcode ≠ .var)
      (uses : ∀ v ∈ i.usedIds, lengths v ∨ ∃ id, v = .int id ∧ w.HoldsType id) :
      Ask lengths w
        ({ w with program := w.program.nextBound.made i }.listed .typesValues ⟨w.program.instructions.size⟩)
  /-- The declaration of a type and its decorations are there when the table is told of it. -/
  | register {t : TypeTable} {id : Id} {ty : Ty} (found : w.facts.types = some t) (nonzero : id ≠ 0)
      (declared : ∃ r ∈ w.program.module.typesValues, w.program.Holds r ∧ (w.program.inst r).resultId = id)
      (decorated : ty.decorations ≠ [] → w.Annotated (.int id)) :
      Ask lengths w { w with facts := { w.facts with types := some (t.register id ty) } }

def asks (lengths : Value → Prop) : Account Workspace :=
  walk (Ask lengths) Loses

variable {α : Type} {lengths : Value → Prop} {texts : Set Value} {w w' : Workspace}

theorem Note.step {target : Value} (note : w.Note target w') : w.Step texts w' := by
  cases note with
  | find find => exact .aside (show Aside texts ∅ w _ from .find find)
  | annotate _ _ analyzed =>
    obtain ⟨b, known, step⟩ := analyzed
    exact .annotate rfl known step

theorem Ask.step (ask : Ask lengths w w') : w.Step texts w' := by
  cases ask with
  | note note => exact note.step
  | types => exact .types _
  | constants c => exact .constants c
  | declare free result => exact .declare free result
  | register => exact .types _

theorem Find.step (find : w.Find w') : w.Step texts w' :=
  (show Note (.int 0) w w' from .find find).step

/-- Steps may refer to any lengths. -/
theorem steps_of_asks {change : Action α} {post : α → Workspace → Prop} (h : (asks fun _ => True).Keeps change w post) :
    (steps texts).Keeps change w post :=
  h.walk_mono Ask.step

theorem steps_of_notes {target : Value} {change : Action α} {post : α → Workspace → Prop}
    (h : (notes target).Keeps change w post) : (steps texts).Keeps change w post :=
  keeps_of_inSteps (fun _ note => .single note.step) h

theorem steps_of_finds {change : Action α} {post : α → Workspace → Prop} (h : finds.Keeps change w post) :
    (steps texts).Keeps change w post :=
  keeps_of_inSteps (fun _ find => .single find.step) h

theorem extends_of_asks (h : (asks lengths).moves w w') : w.program.Extends w'.program :=
  moves_of_walk (A := steps ∅) (fun _ ask => .single ask.step) h |> extends_of_steps

/-! ### What lasts -/

theorem Note.types_eq {target : Value} (note : w.Note target w') : w'.facts.types = w.facts.types := by
  cases note with
  | find find => exact find.looks.2.1
  | annotate => rfl

theorem Ask.types_some {t : TypeTable} (ask : Ask lengths w w') (found : w.facts.types = some t) :
    ∃ t', w'.facts.types = some t' ∧ (∀ id, t.Holds id → t'.Holds id) ∧
      ∀ key entry, t.byType.get? key = some entry → t'.byType.get? key = some entry := by
  cases ask with
  | note note => exact ⟨t, note.types_eq.trans found, fun _ => id, fun _ _ => id⟩
  | constants | declare => exact ⟨t, found, fun _ => id, fun _ _ => id⟩
  | types unread =>
    rw [unread] at found
    cases found
  | register known =>
    obtain rfl := Option.some.inj (known.symm.trans found)
    exact ⟨_, rfl, fun _ => TypeTable.Holds.register, fun _ _ => TypeTable.byType_register⟩

theorem types_of_asks {t : TypeTable} (h : (asks lengths).moves w w') (found : w.facts.types = some t) :
    ∃ t', w'.facts.types = some t' ∧ (∀ id, t.Holds id → t'.Holds id) ∧
      ∀ key entry, t.byType.get? key = some entry → t'.byType.get? key = some entry := by
  induction h with
  | refl => exact ⟨t, found, fun _ => id, fun _ _ => id⟩
  | tail _ ask ih =>
    obtain ⟨t₁, found₁, holds₁, ids₁⟩ := ih
    obtain ⟨t₂, found₂, holds₂, ids₂⟩ := ask.types_some found₁
    exact ⟨t₂, found₂, fun id held => holds₂ id (holds₁ id held), fun key entry held => ids₂ _ _ (ids₁ key entry held)⟩

theorem HoldsType.later {id : Id} (h : w.HoldsType id) (move : (asks lengths).moves w w') : w'.HoldsType id := by
  obtain ⟨nonzero, t, found, held⟩ := h
  obtain ⟨t', found', holds, -⟩ := types_of_asks move found
  exact ⟨nonzero, t', found', holds id held⟩

theorem annotated_of_asks {target : Value} (h : w.Annotated target) (move : (asks lengths).moves w w') :
    w'.Annotated target := by
  induction move with
  | refl => exact h
  | tail _ ask ih =>
    cases ask with
    | note note => exact ih.later note
    | types | constants | declare | register => exact ih

/-! ### Finding facts -/

theorem asks_of_notes {target : Value} {change : Action α} {post : α → Workspace → Prop}
    (h : (notes target).Keeps change w post) : (asks lengths).Keeps change w post :=
  keeps_of_inSteps (fun _ note => .single (.note note)) h

theorem asks_of_finds {change : Action α} {post : α → Workspace → Prop} (h : finds.Keeps change w post) :
    (asks lengths).Keeps change w post :=
  keeps_of_inSteps (fun _ find => .single (.note (show Note (.int 0) _ _ from .find find))) h

theorem asks_modify {change : Workspace → Workspace} (ask : Ask lengths w (change w)) :
    (asks lengths).Keeps (modify change) w fun _ w' => w' = change w :=
  Change.After.modify ⟨.single ask, rfl⟩

theorem asks_needTypes : (asks lengths).Keeps needTypes w fun t w' =>
    w'.facts.types = some t ∧ w'.program = w.program ∧ ∀ t', w.facts.types = some t' → t = t' ∧ w' = w := by
  unfold needTypes
  apply Keeps.bind_get
  cases found : w.facts.types with
  | some t => exact Keeps.pure ⟨found, rfl, fun t' same => ⟨Option.some.inj same, rfl⟩⟩
  | none =>
    refine (asks_of_finds finds_readTypes.with_move).bind fun t w₁ _ held => ?_
    obtain ⟨looked, read⟩ := held
    obtain ⟨program, types, -⟩ := looks_of_finds looked
    refine (asks_modify (.types (types.trans found) read)).bind fun _ w₂ _ same => Keeps.pure ?_
    subst same
    exact ⟨rfl, program, nofun⟩

theorem asks_needConstants : (asks lengths).Keeps needConstants w fun _ _ => True := by
  unfold needConstants
  apply Keeps.bind_get
  split
  · exact Keeps.pure True.intro
  · refine asks_needTypes.seq fun types w₁ _ => Keeps.bind_get ?_
    exact (asks_modify (.constants _)).seq fun _ _ _ => Keeps.pure True.intro

/-! ### Declarations -/

/-- The id is that of a type. If the type has decorations, the table hands the id out for it, or the id is annotated. -/
structure StandsAs (w : Workspace) (id : Id) (ty : Ty) : Prop where
  holds : w.HoldsType id
  decorated : ty.decorations ≠ [] → w.Annotated (.int id) ∨
    ∃ t entry, w.facts.types = some t ∧ t.byType.get? ty.key = some entry ∧ entry.id = id

theorem StandsAs.later {id : Id} {ty : Ty} (h : w.StandsAs id ty) (move : (asks lengths).moves w w') :
    w'.StandsAs id ty where
  holds := h.holds.later move
  decorated some := by
    rcases h.decorated some with annotated | ⟨t, entry, found, handed, same⟩
    · exact .inl (annotated_of_asks annotated move)
    · obtain ⟨t', found', -, ids⟩ := types_of_asks move found
      exact .inr ⟨t', entry, found', ids _ _ handed, same⟩

theorem asks_registerType {t : TypeTable} {id : Id} {ty : Ty} (found : w.facts.types = some t) (nonzero : id ≠ 0)
    (declared : ∃ r ∈ w.program.module.typesValues, w.program.Holds r ∧ (w.program.inst r).resultId = id)
    (decorated : ty.decorations ≠ [] → w.Annotated (.int id)) :
    (asks lengths).Keeps (registerType id ty) w fun _ w' => w'.StandsAs id ty := by
  unfold registerType
  refine asks_needTypes.bind fun t' w₁ _ held => ?_
  obtain ⟨rfl, rfl⟩ := held.2.2 t found
  refine (asks_modify (.register found nonzero declared decorated)).mono fun _ w₂ _ same => ?_
  subst same
  exact ⟨⟨nonzero, _, rfl, TypeTable.holds_register⟩, fun some => .inl (decorated some)⟩

/-- The table may be told of any type under any id. -/
theorem steps_registerType (id : Id) (ty : Ty) : (steps texts).Keeps (registerType id ty) w fun _ _ => True := by
  unfold registerType
  refine (steps_of_asks asks_needTypes).seq fun t w₁ _ => ?_
  exact Change.After.modify ⟨.single (.types _), True.intro⟩

/-- A declaration stays listed. -/
theorem declared_later {id : Id} (move : (asks lengths).moves w w')
    (h : ∃ r ∈ w.program.module.typesValues, w.program.Holds r ∧ (w.program.inst r).resultId = id) :
    ∃ r ∈ w'.program.module.typesValues, w'.program.Holds r ∧ (w'.program.inst r).resultId = id := by
  obtain ⟨r, member, held, result⟩ := h
  have grows := (extends_of_asks move).toGrows
  exact ⟨r, grows.module.mem_typesValues member, grows.holds held, (grows.resultId held).trans result⟩

theorem asks_introduce {t : TypeTable} {id : Id} {ty : Ty} (found : w.facts.types = some t) (nonzero : id ≠ 0)
    (declared : ∃ r ∈ w.program.module.typesValues, w.program.Holds r ∧ (w.program.inst r).resultId = id) :
    (asks lengths).Keeps (do
      discard needAnnotations
      ty.decorations.forM fun d => discard <| decorate (.int id) d
      ty.memberDecorations.forM fun d => discard <| decorateMember (.int id) d
      registerType id ty
      return id) w fun id w' => w'.StandsAs id ty := by
  refine (asks_of_finds finds_needAnnotations).discard.seq fun _ w₁ move₁ => ?_
  refine (asks_of_notes (notes_decorations _ _)).bind fun _ w₂ move₂ annotated => ?_
  refine (asks_of_notes (notes_memberDecorations _ _)).seq fun _ w₃ move₃ => ?_
  have move := (asks lengths).trans ((asks lengths).trans move₁ move₂) move₃
  obtain ⟨t', found', -⟩ := types_of_asks move found
  refine (asks_registerType found' nonzero (declared_later move declared) fun some => ?_).bind
    fun _ w₄ _ stands => Keeps.pure stands
  exact annotated_of_asks (annotated some) move₃

/-- A type is declared by ids that are held, and by lengths. -/
theorem asks_declareNew {t : TypeTable} {ty : Ty} {declaration : Opcode × List Operand} (found : w.facts.types = some t)
    (sized : ∀ v ∈ ty.ownLengths, lengths v) (declared : Ty.DeclaredBy w.StandsAs declaration ty) :
    (asks lengths).Keeps (declareNew ty declaration) w fun id w' => w'.StandsAs id ty := by
  unfold declareNew
  refine Change.After.bind (after_takeId (fun _ => ⟨w, .refl, .refl⟩) fun free => ?_)
  split
  · have lost (e : Error) : (asks lengths).fails w e { w with program := w.program.nextBound } :=
      ⟨w, .refl, .single (.id free)⟩
    exact .bind (.check (fun _ _ => .throw (lost _)) fun e _ => lost e)
  next nonzero =>
    refine Change.After.bind (after_newInst (Change.After.bind (after_listed ?_)))
    let i : Instruction :=
      { opcode := declaration.1, resultId := w.program.module.idBound, operands := declaration.2 }
    -- Only variables are left to other turns, and a type is none.
    have plain : i.opcode ≠ .var := by
      have declares := declared.declaresType
      intro same
      rw [show declaration.1 = .var from same] at declares
      cases declares
    refine Keeps.after_move (asks_introduce found nonzero ?_) (.single (.declare (i := i) free rfl nonzero plain ?_))
    · exact ⟨_, List.mem_append_right _ (List.mem_singleton_self _), w.program.nextBound.holds_made i,
        congrArg Instruction.resultId (w.program.nextBound.inst_made i)⟩
    · intro v used
      rcases declared.mem_usedIds used with length | ⟨id, inner, stands, rfl⟩
      · exact .inl (sized v length)
      · exact .inr ⟨id, rfl, stands.holds⟩

/-! ### Requests -/

theorem servesTypes_asks : ServesTypes (asks lengths) (fun _ => True) (fun w => ∃ t, w.facts.types = some t)
    (fun _ ty => ∀ v ∈ ty.lengths, lengths v) StandsAs where
  start _ := True.intro
  kept ready move := by
    obtain ⟨t, found⟩ := ready
    obtain ⟨t', found', -⟩ := types_of_asks move found
    exact ⟨t', found'⟩
  still _ _ sized := sized
  component sized inner member v length := sized v (Ty.lengths_of_component member length)
  later _ move stands := stands.later move
  found _ := asks_needTypes.mono fun t w' _ held => by
    refine ⟨⟨t, held.1⟩, fun ty nonzero => ?_⟩
    obtain ⟨entry, handed, same⟩ := TypeTable.entry_of_id nonzero
    exact ⟨⟨nonzero, t, held.1, .inr ⟨_, entry, handed, same⟩⟩, fun _ => .inr ⟨t, entry, held.1, handed, same⟩⟩
  declared ready sized declared := by
    obtain ⟨t, found⟩ := ready
    exact asks_declareNew found (fun v own => sized v (Ty.ownLengths_subset _ own)) declared

theorem asks_typeId (ty : Ty) (sized : ∀ v ∈ ty.lengths, lengths v) :
    (asks lengths).Keeps (typeId ty) w fun id w' => w'.StandsAs id ty :=
  servesTypes_asks.keeps_typeId ty True.intro sized

/-- A constant is declared after its type. -/
theorem asks_constantId (ty : Ty) (value : Value) (sized : ∀ v ∈ ty.lengths, lengths v) :
    (asks lengths).Keeps (constantId ty value) w fun _ _ => True := by
  unfold constantId
  refine asks_needConstants.seq fun constants w₁ _ => Keeps.after_check walk_lenient fun _ => ?_
  split
  · exact Keeps.pure True.intro
  · refine (asks_typeId ty sized).bind fun typeId w₂ _ stands => ?_
    refine Change.After.bind (after_takeId (fun _ => ⟨w₂, .refl, .refl⟩) fun free => ?_)
    split
    · exact .throw ⟨w₂, .refl, .single (.id free)⟩
    next nonzero =>
      refine Change.After.bind (after_newInst (Change.After.bind (after_listed ?_)))
      let i := constantDeclaration typeId w₂.program.module.idBound value
      refine Keeps.after_move ?_ (.single (.declare (i := i) free rfl nonzero nofun fun v used => ?_))
      · exact asks_needConstants.seq fun t w₄ _ => (asks_modify (.constants _)).seq fun _ _ _ => Keeps.pure True.intro
      · exact .inr ⟨typeId, mem_usedIds_constantDeclaration used, stands.holds⟩

theorem asks_typeOf (v : Value) : (asks lengths).Keeps (typeOf v) w fun ty w' =>
    ∃ t, w'.facts.types = some t ∧ t.type? v = some ty := by
  unfold typeOf
  refine asks_needTypes.bind fun t w₁ _ held => ?_
  split
  next ty known => exact Keeps.pure ⟨t, held.1, known⟩
  next => exact Keeps.throw_lenient walk_lenient

/-! ### Types by the ids of their components

What is registered for the ids is looked up. If it is found under an id again, no lengths are needed but those that the
request gives. -/

def FindsTypes (w : Workspace) : Prop :=
  ∀ t, w.facts.types = some t → ∀ v ty, t.type? v = some ty → t.id ty ≠ 0

/-- All lengths are given, or known types are found wherever the account moves. -/
def Sizes (A : Account Workspace) (lengths : Value → Prop) (w : Workspace) : Prop :=
  (∀ v, lengths v) ∨ ∀ w', A.moves w w' → w'.FindsTypes

theorem Sizes.any {A : Account Workspace} : Sizes A (fun _ => True) w :=
  .inl fun _ => True.intro

theorem Sizes.later {A : Account Workspace} (h : Sizes A lengths w) (move : A.moves w w') : Sizes A lengths w' :=
  h.imp_right fun finds _ further => finds _ (A.trans move further)

theorem stands_of_handed {t : TypeTable} {ty : Ty} (found : w.facts.types = some t) (nonzero : t.id ty ≠ 0) :
    w.StandsAs (t.id ty) ty := by
  obtain ⟨entry, handed, same⟩ := TypeTable.entry_of_id nonzero
  exact ⟨⟨nonzero, t, found, .inr ⟨_, entry, handed, same⟩⟩, fun _ => .inr ⟨t, entry, found, handed, same⟩⟩

theorem asks_wrap {t : TypeTable} {form : Wrapper} {component : Ty} {v : Value} (ds : List Decoration)
    (sizes : Sizes (asks lengths) lengths w) (plain : form.lengths = []) (found : w.facts.types = some t)
    (known : t.type? v = some component) :
    (asks lengths).Keeps (typeId (.wrap form component ds)) w
      fun id w' => w'.StandsAs id (.wrap form component ds) := by
  rcases sizes with all | finds
  · exact asks_typeId _ fun v _ => all v
  · have nonzero := finds w .refl t found v component known
    unfold typeId Workspace.known
    refine Change.After.bind (.ran (needTypes_of_found found) ?_)
    dsimp only
    split
    next handed => exact Keeps.pure (stands_of_handed found handed)
    next =>
      refine Change.After.bind (.ran (typeId_of_found found nonzero) ?_)
      have sized : ∀ v ∈ (Ty.wrap form component ds).ownLengths, lengths v := by
        rw [show (Ty.wrap form component ds).ownLengths = [] from plain]
        exact List.forall_mem_nil _
      exact asks_declareNew found sized (.wrap (stands_of_handed found nonzero))

theorem asks_struct {t : TypeTable} {given : List Value} {members : List Ty} (mds ds : List Decoration)
    (sizes : Sizes (asks lengths) lengths w) (found : w.facts.types = some t)
    (known : given.mapM t.type? = some members) :
    (asks lengths).Keeps (typeId (.struct members mds ds)) w fun id w' => w'.StandsAs id (.struct members mds ds) := by
  rcases sizes with all | finds
  · exact asks_typeId _ fun v _ => all v
  · replace known := Ty.forall₂_of_mapM known
    have nonzero : ∀ ty ∈ members, t.id ty ≠ 0 := by
      induction known with
      | nil => exact nofun
      | cons first _ ih => exact List.forall_mem_cons.mpr ⟨finds w .refl t found _ _ first, ih⟩
    unfold typeId Workspace.known
    refine Change.After.bind (.ran (needTypes_of_found found) ?_)
    dsimp only
    split
    next handed => exact Keeps.pure (stands_of_handed found handed)
    next =>
      refine Change.After.bind (.ran (typeIds_of_found found nonzero) ?_)
      have inner : List.Forall₂ w.StandsAs (members.map t.id) members :=
        List.forall₂_map_left_iff.mpr
          (List.forall₂_same.mpr fun ty member => stands_of_handed found (nonzero ty member))
      exact asks_declareNew found nofun (.struct inner)

theorem asks_pointerId (pointee storage : Value) (sizes : Sizes (asks lengths) lengths w) :
    (asks lengths).Keeps (pointerId pointee storage) w fun id w' => w'.HoldsType id := by
  unfold pointerId
  refine (asks_typeOf pointee).bind fun ty w₁ move known => Keeps.after_check walk_lenient fun _ => ?_
  obtain ⟨t, found, known⟩ := known
  exact (asks_wrap [] (sizes.later move) rfl found known).mono fun _ _ _ stands => stands.holds

theorem asks_runtimeArrayId (element stride : Value) (sizes : Sizes (asks lengths) lengths w) :
    (asks lengths).Keeps (runtimeArrayId element stride) w fun id w' => w'.HoldsType id := by
  unfold runtimeArrayId
  refine (asks_typeOf element).bind fun ty w₁ move known => ?_
  obtain ⟨t, found, known⟩ := known
  exact (asks_wrap _ (sizes.later move) rfl found known).mono fun _ _ _ stands => stands.holds

theorem asks_structId (members : List Value) (ds mds : List Decoration) (sizes : Sizes (asks lengths) lengths w) :
    (asks lengths).Keeps (structId members ds mds) w fun id w' => w'.HoldsType id := by
  unfold structId
  refine asks_needTypes.bind fun t w₁ move held => ?_
  split
  next => exact Keeps.throw_lenient walk_lenient
  next tys known =>
    refine (Keeps.check_lenient walk_lenient).bind fun ty w₂ _ held' => ?_
    obtain ⟨decorated, rfl⟩ := held'
    -- Decorations leave a structure a structure.
    obtain ⟨own, -, rest⟩ := except_bind_ok_iff.mp decorated
    obtain ⟨inner, -, last⟩ := except_bind_ok_iff.mp rest
    obtain rfl := Except.ok.inj last
    exact (asks_struct _ _ (sizes.later move) held.1 known).mono fun _ _ _ stands => stands.holds

end Workspace

end BlockTally
