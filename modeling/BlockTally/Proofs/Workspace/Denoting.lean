import BlockTally.Proofs.Workspace.Recording
import BlockTally.Proofs.Workspace.Requests

/-! What the answers to requests denote.

The answer to a request for a type is an id that is not null, and that the table of types knows as the type. The answer
to a request for a constant is declared as one with the value. The steps of a request do not say what a declaration
tells of its type, so declarations are followed as a whole.
-/

set_option autoImplicit false

namespace BlockTally.Workspace

open Account Contract

def recording (p : Program) : Contract Workspace where
  moves w w' := w.Continues p → w.Onward p w'
  exhausted _ := True
  refl _ h := .refl h
  trans first second h :=
    let before := first h
    before.trans (second before.continues)

variable {p : Program} {w w' : Workspace} {α β : Type}

theorem recording_lenient : (recording p).account.Lenient := Contract.Lenient.account fun _ => True.intro

/-- A step of a request may suppose that the workspace goes on from the program. -/
theorem recording_bind {change : Action α} {next : α → Action β} {post : α → Workspace → Prop}
    {last : β → Workspace → Prop} (start : w.Continues p) (h : (recording p).Keeps change w post)
    (rest : ∀ a w', w.Onward p w' → post a w' → (recording p).Keeps (next a) w' last) :
    (recording p).Keeps (change >>= next) w last :=
  h.bind fun a w' move held => rest a w' (move start) held

/-! ### Edits -/

theorem Find.untold (find : w.Find w') (h : w.Continues p) : w.Untold p w' := by
  cases find with
  | uses | features => exact h.of_facts rfl rfl rfl id
  | annotations => exact h.of_facts rfl rfl rfl fun _ => rfl

theorem Note.untold {target : Value} (note : w.Note target w') (h : w.Continues p) : w.Untold p w' := by
  cases note with
  | find find => exact find.untold h
  | annotate => exact h.annotated_made fun _ => rfl

/-- Without targets, no instruction is lengthened. -/
theorem Aside.untold {texts : Set Value} (aside : w.Aside texts ∅ w') (h : w.Continues p) : w.Untold p w' := by
  cases aside with
  | find find => exact find.untold h
  | name | capability | extension => exact h.listed (by decide) (by decide) rfl rfl rfl
  | lengthen _ _ _ used => exact used.elim

theorem untold_of_notes {target : Value} (moves : (notes target).moves w w') (h : w.Continues p) : w.Untold p w' := by
  induction moves with
  | refl => exact .refl h
  | tail _ note ih => exact ih.trans (note.untold ih.continues)

theorem recording_of_notes {target : Value} {change : Action α} {post : α → Workspace → Prop}
    (h : (notes target).Keeps change w post) : (recording p).Keeps change w post :=
  keeps_of_inSteps (A := (recording p).account) (fun _ note start => (note.untold start).toOnward) h

theorem recording_of_asides {change : Action α} {post : α → Workspace → Prop}
    (h : (asides Set.univ ∅).Keeps change w post) : (recording p).Keeps change w post :=
  keeps_of_inSteps (A := (recording p).account) (fun _ aside start => (aside.untold start).toOnward) h

theorem recording_of_finds {change : Action α} {post : α → Workspace → Prop} (h : finds.Keeps change w post) :
    (recording p).Keeps change w post :=
  keeps_of_inSteps (A := (recording p).account) (fun _ find start => (find.untold start).toOnward) h

/-! ### Finding the tables -/

structure RecordedSoFar (p : Program) (done : List InstRef) (t : TypeTable) : Prop where
  sound : t.Sound (· ∈ p.idsOf done)
  recorded : t.Recorded p

theorem RecordedSoFar.next {p : Program} {done rest : List InstRef} {r : InstRef} {t : TypeTable} {ty : Ty}
    (h : RecordedSoFar p done t) (split : p.declarations = done ++ r :: rest)
    (distinct : (p.idsOf p.declarations).Nodup) (states : Ty.States t.type? (p.inst r) ty) :
    RecordedSoFar p (done ++ [r]) (t.register (p.inst r).resultId ty) := by
  have listed : r ∈ p.declarations := split ▸ List.mem_append_right _ (List.mem_cons_self ..)
  rw [split] at distinct
  exact ⟨h.sound.next distinct ty, h.recorded.register ⟨r, List.mem_of_mem_filter listed, rfl⟩
    (h.sound.fresh distinct) (states.told rfl) fun numbered => numbered r listed⟩

/-- A fresh reading of the types records the program. -/
theorem HasRead.recorded {t : TypeTable} (h : w.HasRead t) (continues : w.Continues p) : t.Recorded w.program := by
  have distinct : (w.program.idsOf w.program.declarations).Nodup :=
    continues.distinct.sublist (w.program.idsOf_sublist List.filter_sublist)
  have read := h.induct (RecordedSoFar w.program) ⟨.empty _, .empty w.program⟩
    fun done r rest t plain own members ty split held declared decorated =>
      held.next split distinct ((Ty.states_of_ofInstruction declared).decorated decorated)
  exact read.recorded

theorem recording_needTypes (h : w.Continues p) : (recording p).Keeps needTypes w fun t w' =>
    w'.facts.types = some t ∧ w'.program = w.program ∧ ∀ t', w.facts.types = some t' → t = t' ∧ w' = w := by
  unfold needTypes
  apply Keeps.bind_get
  cases found : w.facts.types with
  | some t => exact Keeps.pure ⟨found, rfl, fun t' same => ⟨Option.some.inj same, rfl⟩⟩
  | none =>
    refine recording_bind h (recording_of_finds finds_readTypes.with_move) fun t w₁ onward held => ?_
    obtain ⟨looked, read⟩ := held
    obtain ⟨program, types, -⟩ := looks_of_finds looked
    have recorded := read.recorded onward.continues
    refine Keeps.bind (Keeps.modify fun start => start.setTypes recorded (fun v => read.annotated) fun t' found' => ?_)
      fun _ w₂ _ same => Keeps.pure ⟨?_, ?_, nofun⟩
    · cases (types.trans found).symm.trans found'
    · rw [same]
    · rw [same]
      exact program

theorem recording_needConstants (h : w.Continues p) : (recording p).Keeps needConstants w fun c w' =>
    c.Sound w'.program := by
  unfold needConstants
  apply Keeps.bind_get
  cases found : w.facts.constants with
  | some c => exact Keeps.pure (h.constants c found)
  | none =>
    refine recording_bind h (recording_needTypes h) fun types w₁ _ _ => Keeps.bind_get ?_
    have sound := readConstants_sound types w₁.program.module.typesValues (ConstantTable.Sound.empty w₁.program)
      (List.Subset.refl _)
    refine Keeps.bind (Keeps.modify fun start => start.setConstants sound) fun _ w₂ _ same => Keeps.pure ?_
    rw [same]
    exact sound

/-! ### Requests for types -/

def Denotes (w : Workspace) (id : Id) (ty : Ty) : Prop :=
  id ≠ 0 ∧ ∃ t, w.facts.types = some t ∧ Ty.KnownAs t.type? id ty

theorem Denotes.later {id : Id} {ty : Ty} (h : w.Denotes id ty) (onward : w.Onward p w') : w'.Denotes id ty := by
  obtain ⟨nonzero, t, found, ty', known, same⟩ := h
  obtain ⟨t', found', more⟩ := onward.known t found
  exact ⟨nonzero, t', found', ty', more _ _ known, same⟩

theorem Denotes.congr {id : Id} {ty ty' : Ty} (h : w.Denotes id ty) (same : ty.key = ty'.key) : w.Denotes id ty' := by
  obtain ⟨nonzero, t, found, other, known, key⟩ := h
  exact ⟨nonzero, t, found, other, known, key.trans same⟩

theorem Denotes.knownAs {id : Id} {ty : Ty} {t : TypeTable} (h : w.Denotes id ty) (found : w.facts.types = some t) :
    Ty.KnownAs t.type? id ty := by
  obtain ⟨-, t', found', known⟩ := h
  obtain rfl := Option.some.inj (found.symm.trans found')
  exact known

theorem denotes_register {t : TypeTable} {id : Id} {ty : Ty} (nonzero : id ≠ 0) :
    Denotes { w with facts := { w.facts with types := some (t.register id ty) } } id ty :=
  ⟨nonzero, _, rfl, ty, by rw [TypeTable.type?_register, if_pos rfl], rfl⟩

/-- The table is told of a declaration. -/
theorem recording_registerType {t : TypeTable} {i : Instruction} {ty : Ty} (h : w.Continues p)
    (found : w.facts.types = some t) (annotated : w.facts.annotations.isSome = true) (declared : w.program.Declares i)
    (nonzero : i.resultId ≠ 0) (fresh : t.type? (.int i.resultId) = none) (tells : Ty.Told t.type? i ty) :
    (recording p).Keeps (registerType i.resultId ty) w fun _ w' => w'.Denotes i.resultId ty := by
  unfold registerType
  refine recording_bind h (recording_needTypes h) fun t' w₁ _ held => ?_
  obtain ⟨rfl, rfl⟩ := held.2.2 t found
  have recorded := (h.types t' found).register declared (fun _ => fresh) tells fun _ => nonzero
  refine (Keeps.modify fun _ => h.setTypes recorded (fun _ _ => annotated) fun t' found' v ty' known => ?_).mono
    fun _ w₂ _ same => same ▸ denotes_register nonzero
  obtain rfl := Option.some.inj (found.symm.trans found')
  exact (TypeTable.Extends.register fresh : _).types v ty' known

/-- What follows once a type is declared. -/
theorem recording_introduce {t : TypeTable} {i : Instruction} {ty : Ty} (h : w.Continues p)
    (found : w.facts.types = some t) (declared : w.program.Declares i) (nonzero : i.resultId ≠ 0)
    (fresh : t.type? (.int i.resultId) = none) (tells : Ty.Told t.type? i ty) :
    (recording p).Keeps (do
      discard needAnnotations
      ty.decorations.forM fun d => discard <| decorate (.int i.resultId) d
      ty.memberDecorations.forM fun d => discard <| decorateMember (.int i.resultId) d
      registerType i.resultId ty
      return i.resultId) w fun id w' => w'.Denotes id ty := by
  have edited {change : Action Unit} {next : Unit → Action Id} {w : Workspace} {post : Workspace → Prop}
      {last : Id → Workspace → Prop} (start : w.Continues p)
      (edit : (notes (.int i.resultId)).Keeps change w fun _ => post)
      (rest : ∀ w', w.Untold p w' → post w' → (recording p).Keeps (next ()) w' last) :
      (recording p).Keeps (change >>= next) w last :=
    (recording_of_notes edit.with_move).bind fun _ w' _ held => rest w' (untold_of_notes held.1 start) held.2
  have annotations : (notes (.int i.resultId)).Keeps (discard needAnnotations) w fun _ w' =>
      w'.facts.annotations.isSome = true :=
    (notes_of_finds finds_needAnnotations).bind fun _ _ _ found => Keeps.pure (by rw [found.1]; rfl)
  refine edited h annotations fun w₁ untold₁ annotated => ?_
  refine edited untold₁.continues (notes_decorations _ _).trivial fun w₂ untold₂ _ => ?_
  refine edited untold₂.continues (notes_memberDecorations _ _) fun w₃ untold₃ _ => ?_
  have untold := (untold₁.trans untold₂).trans untold₃
  have annotated' := untold₃.annotations (untold₂.annotations annotated)
  refine recording_bind untold.continues (recording_registerType untold.continues (untold.types.trans found) annotated'
    (untold.declares declared) nonzero fresh tells) fun _ w₄ _ denotes => Keeps.pure denotes

theorem recording_declareNew {t : TypeTable} {ty : Ty} {declaration : Opcode × List Operand} (h : w.Continues p)
    (found : w.facts.types = some t) (tells : Ty.Tells t.type? declaration ty) :
    (recording p).Keeps (declareNew ty declaration) w fun id w' => w'.Denotes id ty := by
  unfold declareNew
  refine Change.After.bind (after_takeId (fun _ => ⟨fun h => .refl h, fun _ => True.intro⟩) fun _ => ?_)
  split
  · have refused : (recording p).Keeps (do
        let text ← liftM ty.text
        throw (.invariant (.nullType text)) : Action Id) { w with program := w.program.nextBound }
        fun id w' => w'.Denotes id ty :=
      Keeps.after_check recording_lenient fun _ => Keeps.throw_lenient recording_lenient
    exact refused.after_move fun h => h.nextBound.toOnward
  next nonzero =>
    refine Change.After.bind (after_newInst (Change.After.bind (after_addGlobal fun uses => ?_)))
    let i : Instruction :=
      { opcode := declaration.1, resultId := w.program.module.idBound, operands := declaration.2 }
    have untold := h.declared (i := i) uses rfl nonzero
    have declared : (w.program.declared i).Declares i := ⟨_, w.program.mem_declared i, w.program.inst_declared i⟩
    exact (recording_introduce (i := i) untold.continues found declared nonzero (h.fresh found nonzero)
      (tells _)).after_move fun _ => untold.toOnward

theorem servesTypes_recording : ServesTypes (recording p).account (Continues p)
    (fun w => w.Continues p ∧ ∃ t, w.facts.types = some t) (fun _ _ => True) Denotes where
  start ready := ready.1
  kept ready move := by
    obtain ⟨start, t, found⟩ := ready
    obtain ⟨t', found', -⟩ := (move start).known t found
    exact ⟨(move start).continues, t', found'⟩
  still _ _ _ := True.intro
  component _ _ _ := True.intro
  later ready move denotes := denotes.later (move ready.1)
  found start := (recording_needTypes start).mono fun t w' move held => by
    have continues := (move start).continues
    refine ⟨⟨continues, t, held.1⟩, fun ty nonzero => ⟨nonzero, t, held.1, ?_⟩⟩
    exact ((continues.types t held.1).sound.of_id nonzero).2
  declared ready _ declared := by
    obtain ⟨start, t, found⟩ := ready
    refine recording_declareNew start found ?_
    cases declared with
    | atom passed => exact Ty.tells_atom passed
    | wrap inner => exact Ty.tells_wrap (inner.knownAs found)
    | struct inner => exact Ty.tells_struct (inner.imp fun _ _ denotes => denotes.knownAs found)
    | function inner => exact Ty.tells_function (inner.imp fun _ _ denotes => denotes.knownAs found)

theorem recording_typeId (ty : Ty) (h : w.Continues p) :
    (recording p).Keeps (typeId ty) w fun id w' => w'.Denotes id ty :=
  servesTypes_recording.keeps_typeId ty h True.intro

/-! ### Requests by ids -/

def TypedAs (w : Workspace) (v : Value) (ty : Ty) : Prop :=
  ∃ t, w.facts.types = some t ∧ t.type? v = some ty

theorem TypedAs.later {v : Value} {ty : Ty} (h : w.TypedAs v ty) (onward : w.Onward p w') : w'.TypedAs v ty := by
  obtain ⟨t, found, known⟩ := h
  obtain ⟨t', found', more⟩ := onward.known t found
  exact ⟨t', found', more v ty known⟩

theorem recording_typeOf (v : Value) (h : w.Continues p) :
    (recording p).Keeps (typeOf v) w fun ty w' => w'.TypedAs v ty := by
  unfold typeOf
  refine recording_bind h (recording_needTypes h) fun t w₁ _ held => ?_
  split
  next ty known => exact Keeps.pure ⟨t, held.1, known⟩
  next => exact Keeps.throw_lenient recording_lenient

/-- A storage class that passes is a number or a numeral. -/
theorem number_of_checkStorage {ty : Ty} {storage : Value} (passed : (Ty.pointer ty storage).checkStorage = .ok ()) :
    ∃ number, storage.number? = some number := by
  obtain ⟨number, read, -⟩ := except_bind_ok_iff.mp passed
  unfold Value.number present at read
  split at read
  next found => exact ⟨_, found⟩
  next => cases read

theorem recording_pointerId (pointee storage : Value) (h : w.Continues p) :
    (recording p).Keeps (pointerId pointee storage) w fun id w' => ∃ ty number, storage.number? = some number ∧
      w'.TypedAs pointee ty ∧ w'.Denotes id (.pointer ty (.int number)) := by
  unfold pointerId
  refine recording_bind h (recording_typeOf pointee h) fun ty w₁ onward₁ typed => ?_
  refine (Keeps.check_lenient recording_lenient).bind fun _ w₂ _ held => ?_
  obtain ⟨passed, rfl⟩ := held
  obtain ⟨number, found⟩ := number_of_checkStorage passed
  have same : (Ty.pointer ty storage).key = (Ty.pointer ty (.int number)).key := by
    simp only [Ty.pointer, Ty.key, Wrapper.plain, Value.plain, found]
    rfl
  refine (recording_typeId _ onward₁.continues).mono fun id w₃ move denotes => ?_
  exact ⟨ty, number, found, typed.later (move onward₁.continues), denotes.congr same⟩

theorem recording_runtimeArrayId (element stride : Value) (h : w.Continues p) :
    (recording p).Keeps (runtimeArrayId element stride) w fun id w' => ∃ ty, w'.TypedAs element ty ∧
      w'.Denotes id (.wrap .runtimeArray ty [[.int Decoration.arrayStride, stride]]) := by
  unfold runtimeArrayId
  refine recording_bind h (recording_typeOf element h) fun ty w₁ onward₁ typed => ?_
  refine (recording_typeId _ onward₁.continues).mono fun id w₂ move denotes => ?_
  exact ⟨ty, typed.later (move onward₁.continues), denotes⟩

theorem recording_structId (members : List Value) (ds mds : List Decoration) (h : w.Continues p) :
    (recording p).Keeps (structId members ds mds) w fun id w' => ∃ tys own inner,
      List.Forall₂ w'.TypedAs members tys ∧ w'.Denotes id (.struct tys inner own) := by
  unfold structId
  refine recording_bind h (recording_needTypes h) fun t w₁ onward₁ held => ?_
  split
  · exact Keeps.throw_lenient recording_lenient
  next tys known =>
    refine (Keeps.check_lenient recording_lenient).bind fun ty w₂ _ held' => ?_
    obtain ⟨decorated, rfl⟩ := held'
    obtain ⟨own, -, rest⟩ := except_bind_ok_iff.mp decorated
    obtain ⟨inner, -, last⟩ := except_bind_ok_iff.mp rest
    obtain rfl := Except.ok.inj last
    refine (recording_typeId _ onward₁.continues).mono fun id w₃ move denotes => ⟨tys, own, inner, ?_, denotes⟩
    refine (Ty.forall₂_of_mapM known).imp fun v ty found => ?_
    exact TypedAs.later ⟨t, held.1, found⟩ (move onward₁.continues)

/-! ### Requests for constants -/

theorem recording_constantId (ty : Ty) (value : Value) (h : w.Continues p) :
    (recording p).Keeps (constantId ty value) w fun id w' => w'.program.HasConstant id value := by
  unfold constantId
  refine recording_bind h (recording_needConstants h) fun c w₁ onward₁ sound => ?_
  refine Keeps.after_check recording_lenient fun _ => ?_
  split
  next id found => exact Keeps.pure (sound.of_id found)
  next =>
    refine recording_bind onward₁.continues (recording_typeId ty onward₁.continues) fun typeId w₂ onward₂ _ => ?_
    have start := onward₂.continues
    refine Change.After.bind (after_takeId (fun _ => ⟨fun h => .refl h, fun _ => True.intro⟩) fun _ => ?_)
    split
    · have refused : (recording p).Keeps (throw (.invariant (.nullConstant value)) : Action Id)
          { w₂ with program := w₂.program.nextBound } fun id w' => w'.program.HasConstant id value :=
        Keeps.throw_lenient recording_lenient
      exact refused.after_move fun h => h.nextBound.toOnward
    next nonzero =>
      refine Change.After.bind (after_newInst (Change.After.bind (after_addGlobal fun uses => ?_)))
      let i := constantDeclaration typeId w₂.program.module.idBound value
      have untold := start.declared (i := i) uses rfl nonzero
      have declared : (w₂.program.declared i).HasConstant i.resultId value :=
        ⟨i, ⟨_, w₂.program.mem_declared i, w₂.program.inst_declared i⟩, rfl, rfl, rfl⟩
      refine Keeps.after_move ?_ fun _ => untold.toOnward
      refine recording_bind untold.continues (recording_needConstants untold.continues) fun c' w₃ onward₃ sound' => ?_
      obtain ⟨_, _, adds⟩ := onward₃.program
      have declared₃ := adds.hasConstant declared
      refine Keeps.bind (Keeps.modify fun start => start.setConstants (sound'.register ty declared₃))
        fun _ w₄ _ same => Keeps.pure ?_
      rw [same]
      exact declared₃

end BlockTally.Workspace
