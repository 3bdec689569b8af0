import BlockTally.Proofs.Workspace.Answers
import BlockTally.Proofs.Workspace.Safety

/-! Types that are asked for by the ids of their components.

A pointer, an array or a structure is asked for with ids, but it is looked up by what the ids stand for, and of types
that are alike the one that was declared first is handed out. So the operands of its declaration stand for the same
types as the given ids, without having to be these ids themselves.
-/

set_option autoImplicit false

namespace BlockTally.Workspace

open Account Contract

/-- The operand is an id of a type like that of the given value. The null id is left open where types are declared under
it: there can be several. -/
def StandsFor (w : Workspace) (given operand : Value) : Prop :=
  operand = .int 0 ∧ ¬w.program.TypesNumbered ∨ ∃ ty ty', w.TypedAs given ty ∧ w.TypedAs operand ty' ∧ ty'.key = ty.key

def PointsTo (w : Workspace) (id : Id) (pointee storage : Value) : Prop :=
  ∃ i, w.program.Declares i ∧ i.resultId = id ∧ i.opcode = .typePointer ∧
    (∃ spelled number, i.value 0 = .ok spelled ∧ storage.number? = some number ∧ spelled.number? = some number) ∧
    ∃ operand, i.value 1 = .ok operand ∧ w.StandsFor pointee operand

def ArrayOf (w : Workspace) (id : Id) (element : Value) : Prop :=
  ∃ i, w.program.Declares i ∧ i.resultId = id ∧ i.opcode = .typeRuntimeArray ∧
    ∃ operand, i.value 0 = .ok operand ∧ w.StandsFor element operand

def StructOf (w : Workspace) (id : Id) (members : List Value) : Prop :=
  ∃ i, w.program.Declares i ∧ i.resultId = id ∧ i.opcode = .typeStruct ∧
    List.Forall₂ w.StandsFor members (i.operands.map Operand.value)

def Finds (w : Workspace) (given : List Value) : Prop :=
  ∃ t w', needTypes w = .ok t w' ∧ ∀ v ∈ given, (t.type? v).isSome = true

/-- There is no id to take: none is left, or the next one is the null id. -/
def Spent (w : Workspace) : Prop :=
  maxIdBound ≤ w.program.module.idBound ∨ w.program.module.idBound = 0

variable {p : Program} {w w' : Workspace}

/-! ### What the answers are declared as -/

/-- Where no other id has a type like that of the given one, the given id itself is the operand. -/
theorem StandsFor.eq_given {given operand : Value} (h : w.StandsFor given operand)
    (numbered : w.program.TypesNumbered)
    (single : ∀ v ty ty', w.TypedAs given ty → w.TypedAs v ty' → ty'.key = ty.key → v = given) : operand = given := by
  rcases h with ⟨-, unnumbered⟩ | ⟨ty, ty', typed, typed', same⟩
  · exact absurd numbered unnumbered
  · exact single operand ty ty' typed typed' same

theorem standsFor_of_named {t : TypeTable} {given operand : Value} {null : Option Ty} {ty component : Ty}
    (continues : w.Continues p) (found : w.facts.types = some t) (typed : w.TypedAs given ty)
    (same : component.key = ty.key) (before : null ≠ none → t.type? (.int 0) ≠ none)
    (named : operand = .int 0 ∧ null ≠ none ∨ t.type? operand = some component) : w.StandsFor given operand := by
  rcases named with ⟨zero, stood⟩ | known
  · exact .inl ⟨zero, fun numbered => before stood ((continues.types t found).null numbered)⟩
  · exact .inr ⟨ty, component, typed, ⟨t, found, known⟩, same⟩

theorem pointsTo_of_denotes {id : Id} {pointee storage : Value} {ty : Ty} {number : Int} (continues : w.Continues p)
    (numeral : storage.number? = some number) (typed : w.TypedAs pointee ty)
    (denotes : w.Denotes id (.pointer ty (.int number))) : w.PointsTo id pointee storage := by
  obtain ⟨i, t, found, declared, result, null, stated, before, states, same⟩ := denotes.told continues
  obtain ⟨spelled, component, rfl, number', inner⟩ := Ty.eq_pointer_of_key same
  obtain ⟨opcode, storage', refers⟩ := states
  obtain ⟨operand, value, named⟩ := refers.named
  exact ⟨i, declared, result, opcode, ⟨spelled, number, storage', numeral, number'⟩, operand, value,
    standsFor_of_named continues found typed inner before named⟩

theorem arrayOf_of_denotes {id : Id} {element : Value} {ty : Ty} {ds : List Decoration} (continues : w.Continues p)
    (typed : w.TypedAs element ty) (denotes : w.Denotes id (.wrap .runtimeArray ty ds)) : w.ArrayOf id element := by
  obtain ⟨i, t, found, declared, result, null, stated, before, states, same⟩ := denotes.told continues
  obtain ⟨component, rfl, inner⟩ := Ty.eq_runtimeArray_of_key same
  obtain ⟨opcode, refers⟩ := states
  obtain ⟨operand, value, named⟩ := refers.named
  exact ⟨i, declared, result, opcode, operand, value, standsFor_of_named continues found typed inner before named⟩

/-- Operands that refer to types like those of the given values stand for the values, one by one. -/
theorem standFor_of_refers {t : TypeTable} {null : Option Ty} {given : List Value} {tys tys' : List Ty}
    {operands : List Operand} (continues : w.Continues p) (found : w.facts.types = some t)
    (typed : List.Forall₂ w.TypedAs given tys) (same : Ty.keys tys' = Ty.keys tys)
    (before : null ≠ none → t.type? (.int 0) ≠ none)
    (refers : List.Forall₂ (Ty.Refers (Function.update t.type? (.int 0) null)) operands tys') :
    List.Forall₂ w.StandsFor given (operands.map Operand.value) := by
  induction typed generalizing tys' operands with
  | nil =>
    cases tys' with
    | nil =>
      cases refers
      exact .nil
    | cons => cases same
  | @cons v ty vs tys first _ ih =>
    cases tys' with
    | nil => cases same
    | cons ty' tys' =>
      obtain ⟨here, there⟩ := List.cons.inj same
      cases refers with
      | cons refers others =>
        exact .cons (standsFor_of_named continues found first here before refers.named) (ih there others)

theorem structOf_of_denotes {id : Id} {members : List Value} {tys : List Ty} {mds ds : List Decoration}
    (continues : w.Continues p) (typed : List.Forall₂ w.TypedAs members tys)
    (denotes : w.Denotes id (.struct tys mds ds)) : w.StructOf id members := by
  obtain ⟨i, t, found, declared, result, null, stated, before, states, same⟩ := denotes.told continues
  obtain ⟨members', rfl, inner⟩ := Ty.eq_struct_of_keys same
  exact ⟨i, declared, result, states.1, standFor_of_refers continues found typed inner before states.2⟩

/-! ### Requests that cannot fail while there is an id -/

structure Ready (w : Workspace) : Prop where
  types : w.facts.types.isSome = true
  annotations : w.facts.annotations.isSome = true

theorem Ready.needAnnotations (h : w.Ready) : ∃ a, needAnnotations w = .ok a w := by
  obtain ⟨a, found⟩ := Option.isSome_iff_exists.mp h.annotations
  refine ⟨a, ?_⟩
  unfold Workspace.needAnnotations
  rw [Change.get_bind, found]
  rfl

theorem Ready.annotate (h : w.Ready) (a : Annotations) (target : Value) (opcode : Opcode) (operands : List Operand) :
    Change.After (annotate a target opcode operands) w (fun _ => Ready) fun _ _ => False := by
  unfold Workspace.annotate
  apply Change.After.bind_get
  split
  · exact .pure h
  · refine .bind (after_newInst (.bind (.mono after_addAnnotation ?_ ?_)))
    · rintro _ _ ⟨found, rfl, annotations, -⟩
      exact .pure ⟨h.types, annotations h.annotations⟩
    · intro e w' none
      refine none.2 target ?_
      rw [Program.inst_made]
      rfl

theorem Ready.decorate (h : w.Ready) (target : Value) {d : Decoration} (numbered : d.Numbered) :
    Change.After (decorate target d) w (fun _ => Ready) fun _ _ => False := by
  obtain ⟨a, annotations⟩ := h.needAnnotations
  unfold Workspace.decorate
  refine .bind (.ran annotations ?_)
  cases d with
  | nil => exact numbered.elim
  | cons v values =>
    obtain ⟨number, read⟩ := numbered
    exact .bind (.check (fun _ _ => h.annotate a target _ _) fun e failed => by cases failed.symm.trans read)

/-- A type with decorations of its own can be declared as long as there is an id. -/
theorem after_declareNew_spent {ty : Ty} (declaration : Opcode × List Operand) (held : w.program.GlobalsHeld)
    (read : w.facts.types.isSome = true)
    (annotated : w.facts.annotations = none → ∃ a, Annotations.ofProgram w.program = .ok a)
    (numbered : ∀ d ∈ ty.decorations, d.Numbered) (bare : ty.memberDecorations = []) :
    Change.After (declareNew ty declaration) w (fun _ _ => True) fun _ _ => w.Spent := by
  unfold declareNew
  refine .bind (after_takeId (fun full => .inl full) fun _ => ?_)
  split
  next zero => exact .bind (.check (fun _ _ => .throw (.inr zero)) fun _ _ => .inr zero)
  next =>
    refine .bind (after_newInst (.bind (after_addGlobal fun uses => ?_)))
    -- The declaration is no annotation, so the annotations are read as before.
    have needed : Change.After needAnnotations
        { program := w.program.declared { opcode := declaration.1, resultId := w.program.module.idBound
                                          operands := declaration.2 }, facts := { w.facts with uses } }
        (fun _ => Ready) fun _ _ => False := by
      unfold needAnnotations
      apply Change.After.bind_get
      dsimp only
      split
      next a found => exact .pure ⟨read, by rw [found]; rfl⟩
      next none =>
        obtain ⟨a, passed⟩ := annotated none
        have same := (held.declared { opcode := declaration.1, resultId := w.program.module.idBound
                                      operands := declaration.2 }).1.ofProgram_eq rfl
        refine .bind_get (.bind (.check (fun _ _ => .bind (.modify (.pure ⟨read, rfl⟩))) fun e failed => ?_))
        cases failed.symm.trans (same.trans passed)
    refine .bind (.discard (.mono needed (fun _ w₁ ready₁ => ?_) fun _ _ => False.elim))
    refine .bind (.mono (Change.After.forM ready₁ fun d member w' ready =>
      .discard (ready.decorate _ (numbered d member))) (fun _ w₂ ready₂ => ?_) fun _ _ => False.elim)
    rw [bare]
    refine .bind (.pure (.bind ?_))
    obtain ⟨t, found⟩ := Option.isSome_iff_exists.mp ready₂.types
    exact .bind (.ran (needTypes_of_found found) (.modify (.pure True.intro)))

/-- In a module whose types are numbered, every known type is found under an id. -/
theorem Continues.id_ne_zero {t : TypeTable} {v : Value} {ty : Ty} (h : w.Continues p)
    (numbered : w.program.TypesNumbered) (found : w.facts.types = some t) (known : t.type? v = some ty) :
    t.id ty ≠ 0 := by
  have recorded := h.types t found
  obtain ⟨entry, among⟩ := Option.ne_none_iff_exists'.mp (recorded.found v ty known)
  rw [TypeTable.id, among]
  exact recorded.numbered numbered _ _ among

/-- Where what was found is like a fresh reading, the ids that declare types are known. -/
theorem Current.finds {t : TypeTable} {ids : List Id} (current : w.Current) (read : w.program.typeTable = .ok t)
    (declare : ∀ id ∈ ids, ∃ r ∈ w.program.declarations, (w.program.inst r).resultId = id) :
    w.Finds (ids.map .int) := by
  have looked := after_needTypes current
  cases ran : needTypes w with
  | error e w' => exact absurd read (looked.of_error ran t)
  | ok live w' =>
    obtain ⟨⟨t', read', agrees⟩, -⟩ := looked.of_ok ran
    obtain rfl := Except.ok.inj (read'.symm.trans read)
    refine ⟨live, w', ran, fun v member => ?_⟩
    obtain ⟨id, among, rfl⟩ := List.mem_map.mp member
    obtain ⟨ty, known⟩ := Option.isSome_iff_exists.mp ((Program.isSome_type?_iff read).mpr (declare id among))
    obtain ⟨ty', known', -⟩ := agrees.symm.type known
    rw [known']
    rfl

/-- The table is there, with all the given types, before the request goes on. -/
theorem Finds.table {given : List Value} (h : w.Continues p) (finds : w.Finds given) :
    ∃ t w', needTypes w = .ok t w' ∧ w'.Continues p ∧ w'.program = w.program ∧ w'.facts.types = some t ∧
      ∀ v ∈ given, ∃ ty, t.type? v = some ty := by
  obtain ⟨t, w', ran, known⟩ := finds
  obtain ⟨move, found, program, -⟩ := (recording_needTypes h).of_ok ran
  exact ⟨t, w', ran, (move h).continues, program, found, fun v member => Option.isSome_iff_exists.mp (known v member)⟩

theorem spent_of_wrap {t : TypeTable} {v : Value} {component : Ty} {ds : List Decoration}
    (h : w.Continues p) (numbered : w.program.TypesNumbered) (found : w.facts.types = some t)
    (known : t.type? v = some component) (decorations : ∀ d ∈ ds, Decoration.Numbered d) (form : Wrapper) :
    Change.After (typeId (.wrap form component ds)) w (fun _ _ => True) fun _ _ => w.Spent := by
  have annotated : w.facts.annotations.isSome = true := h.annotated t v found (by rw [known]; rfl)
  unfold typeId Workspace.known
  refine .bind (.ran (needTypes_of_found found) ?_)
  dsimp only
  split
  · exact .pure True.intro
  · refine .bind (.ran (typeId_of_found found (h.id_ne_zero numbered found known)) ?_)
    refine after_declareNew_spent _ h.held (by rw [found]; rfl) (fun none => ?_) decorations rfl
    rw [none] at annotated
    cases annotated

theorem spent_of_struct {t : TypeTable} {given : List Value} {members : List Ty} (h : w.Continues p)
    (numbered : w.program.TypesNumbered) (found : w.facts.types = some t)
    (known : List.Forall₂ (fun v ty => t.type? v = some ty) given members)
    (annotated : w.facts.annotations = none → ∃ a, Annotations.ofProgram w.program = .ok a) :
    Change.After (typeId (.struct members [] [])) w (fun _ _ => True) fun _ _ => w.Spent := by
  have nonzero : ∀ ty ∈ members, t.id ty ≠ 0 := by
    induction known with
    | nil => exact nofun
    | cons first _ ih => exact List.forall_mem_cons.mpr ⟨h.id_ne_zero numbered found first, ih⟩
  unfold typeId Workspace.known
  refine .bind (.ran (needTypes_of_found found) ?_)
  dsimp only
  split
  · exact .pure True.intro
  · refine .bind (.ran (typeIds_of_found found nonzero) ?_)
    exact after_declareNew_spent _ h.held (by rw [found]; rfl) annotated nofun rfl

/-! ### Requests on a valid module -/

/-- A pointer, an array and a structure are declared with what the given ids stand for. In a module whose types are
numbered such a request is answered, as long as the ids are those of types, and there is an id to take. -/
structure UsesGiven (w : Workspace) : Prop where
  pointer : ∀ pointee storage, Change.After (pointerId pointee storage) w
    (fun id w' => w'.PointsTo id pointee storage)
    fun _ _ => w.program.TypesNumbered ∧ w.Finds [pointee] ∧ storage.number? ≠ none → w.Spent
  runtimeArray : ∀ element stride, Change.After (runtimeArrayId element stride) w
    (fun id w' => w'.ArrayOf id element)
    fun _ _ => w.program.TypesNumbered ∧ w.Finds [element] → w.Spent
  struct : ∀ members ds mds, Change.After (structId members ds mds) w
    (fun id w' => w'.StructOf id members)
    fun _ _ => w.program.TypesNumbered ∧ w.Finds members ∧ ds = [] ∧ mds = [] ∧
      (members = [] → ∃ a, Annotations.ofProgram w.program = .ok a) → w.Spent

theorem after_pointerId (pointee storage : Value) (h : w.Continues p) : Change.After (pointerId pointee storage) w
    (fun id w' => w'.PointsTo id pointee storage)
    fun _ _ => w.program.TypesNumbered ∧ w.Finds [pointee] ∧ storage.number? ≠ none → w.Spent := by
  refine .assuming (.mono (recording_pointerId pointee storage h) (fun id w' held => ?_) fun _ _ _ => True.intro)
    fun assumed => ?_
  · obtain ⟨move, ty, number, numeral, typed, denotes⟩ := held
    exact pointsTo_of_denotes (move h).continues numeral typed denotes
  · obtain ⟨numbered, finds, numeral⟩ := assumed
    obtain ⟨t, w₁, ran, continues, program, found, known⟩ := finds.table h
    obtain ⟨ty, known⟩ := known pointee (List.mem_singleton_self _)
    unfold pointerId typeOf
    refine .bind (.bind (.ran ran ?_))
    rw [known]
    have passes : (Ty.pointer ty storage).checkStorage = .ok () := by
      obtain ⟨number, numeral⟩ := Option.ne_none_iff_exists'.mp numeral
      simp only [Ty.pointer, Ty.checkStorage, Value.number, present, numeral]
      rfl
    refine .pure (.bind (.check (fun _ _ => ?_) fun e failed => by cases failed.symm.trans passes))
    have bare : ∀ d ∈ ([] : List Decoration), Decoration.Numbered d := List.forall_mem_nil _
    have spent := spent_of_wrap continues (program ▸ numbered) found known bare (.pointer storage)
    rwa [Spent, program] at spent

theorem after_runtimeArrayId (element stride : Value) (h : w.Continues p) :
    Change.After (runtimeArrayId element stride) w (fun id w' => w'.ArrayOf id element)
      fun _ _ => w.program.TypesNumbered ∧ w.Finds [element] → w.Spent := by
  refine .assuming (.mono (recording_runtimeArrayId element stride h) (fun id w' held => ?_) fun _ _ _ => True.intro)
    fun assumed => ?_
  · obtain ⟨move, ty, typed, denotes⟩ := held
    exact arrayOf_of_denotes (move h).continues typed denotes
  · obtain ⟨numbered, finds⟩ := assumed
    obtain ⟨t, w₁, ran, continues, program, found, known⟩ := finds.table h
    obtain ⟨ty, known⟩ := known element (List.mem_singleton_self _)
    unfold runtimeArrayId typeOf
    refine .bind (.bind (.ran ran ?_))
    rw [known]
    have strided : ∀ d ∈ [[Value.int Decoration.arrayStride, stride]], Decoration.Numbered d :=
      List.forall_mem_singleton.mpr (Decoration.numbered_cons _ _)
    have spent := spent_of_wrap continues (program ▸ numbered) found known strided
    rw [Spent, program] at spent
    exact .pure (spent .runtimeArray)

theorem after_structId (members : List Value) (ds mds : List Decoration) (h : w.Continues p) :
    Change.After (structId members ds mds) w (fun id w' => w'.StructOf id members)
      fun _ _ => w.program.TypesNumbered ∧ w.Finds members ∧ ds = [] ∧ mds = [] ∧
        (members = [] → ∃ a, Annotations.ofProgram w.program = .ok a) → w.Spent := by
  refine .assuming (.mono (recording_structId members ds mds h) (fun id w' held => ?_) fun _ _ _ => True.intro)
    fun assumed => ?_
  · obtain ⟨move, tys, own, inner, typed, denotes⟩ := held
    exact structOf_of_denotes (move h).continues typed denotes
  · obtain ⟨numbered, finds, rfl, rfl, readable⟩ := assumed
    obtain ⟨t, w₁, ran, continues, program, found, known⟩ := finds.table h
    unfold structId
    refine .bind (.ran ran ?_)
    obtain ⟨tys, all⟩ := Ty.exists_mapM known
    rw [all]
    -- Where there is a member, the annotations were read before its type was.
    have annotated (none : w₁.facts.annotations = none) : ∃ a, Annotations.ofProgram w₁.program = .ok a := by
      rw [program]
      refine readable (List.eq_nil_iff_forall_not_mem.mpr fun v member => ?_)
      obtain ⟨ty, known⟩ := known v member
      have read := continues.annotated t v found (by rw [known]; rfl)
      rw [none] at read
      cases read
    have spent := spent_of_struct continues (program ▸ numbered) found (Ty.forall₂_of_mapM all) annotated
    rw [Spent, program] at spent
    exact .bind spent

/-- After any requests on a valid module the components of a type can be given by their ids. -/
theorem usesGiven_of_requests (valid : p.validate = .ok ()) (closed : p.Closed) (services : List Service) :
    (services.foldl Service.after { program := p }).UsesGiven := by
  have start := continues_of_services (continues_of_validate valid closed) services
  exact ⟨fun pointee storage => after_pointerId pointee storage start,
    fun element stride => after_runtimeArrayId element stride start,
    fun members ds mds => after_structId members ds mds start⟩

def twinStructs : Program where
  instructions := ⟨#[
    { instruction := { opcode := .typeInt, resultId := 1, operands := [.literal (.int 32), .literal (.int 0)] } },
    { instruction := { opcode := .typeStruct, resultId := 2, operands := [.ofId (.int 1)] } },
    { instruction := { opcode := .typeStruct, resultId := 3, operands := [.ofId (.int 1)] } }]⟩
  module := { idBound := 4, typesValues := [⟨0⟩, ⟨1⟩, ⟨2⟩] }

/-- A pointer to the second structure is asked for after an array of it was. -/
theorem usesGiven_of_requests_sample : ∃ w', pointerId (.int 3) (.int 12)
      ([.needUses, .runtimeArray (.int 3) (.int 4)].foldl Service.after { program := twinStructs }) = .ok 5 w' ∧
    w'.PointsTo 5 (.int 3) (.int 12) := by
  have ran := Change.eq_ok_of_answer (by decide +kernel : Change.answer? (pointerId (.int 3) (.int 12)
    ([.needUses, .runtimeArray (.int 3) (.int 4)].foldl Service.after { program := twinStructs })) = some 5)
  have uses := usesGiven_of_requests (p := twinStructs) (by decide +kernel) (by decide)
    [.needUses, .runtimeArray (.int 3) (.int 4)]
  exact ⟨_, ran, (uses.pointer (.int 3) (.int 12)).of_ok ran⟩

/-- The operand of a pointer that is handed out need not be the id that was given, and without an id to take there is no
pointer. -/
theorem not_pointee_of_given :
    (¬∀ (p : Program) (pointee storage : Value) (id : Id) (w' : Workspace), p.validate = .ok () → p.Closed →
      (∃ i, p.Declares i ∧ i.opcode.declaresType = true ∧ .int i.resultId = pointee) →
      pointerId pointee storage { program := p } = .ok id w' →
      ∃ i, w'.program.Declares i ∧ i.resultId = id ∧ i.opcode = .typePointer ∧
        i.operands.map Operand.value = [storage, pointee]) ∧
    ¬∀ (p : Program) (pointee storage : Value), p.validate = .ok () → p.Closed →
      (∃ i, p.Declares i ∧ i.opcode.declaresType = true ∧ .int i.resultId = pointee) →
      ∃ id w', pointerId pointee storage { program := p } = .ok id w' := by
  constructor
  · intro always
    have ran := Change.eq_ok_of_answer (by decide +kernel :
      Change.answer? (pointerId (.int 3) (.int 12) { program := twinStructs }) = some 4)
    obtain ⟨_, ⟨r, listed, rfl⟩, -, pointer, operands⟩ := always twinStructs (.int 3) (.int 12) 4 _ (by decide +kernel)
      (by decide) ⟨_, ⟨⟨2⟩, by decide, rfl⟩, rfl, rfl⟩ ran
    -- The only pointer that is declared is one to the first structure.
    have other : ∀ q, q = (Change.finalState (pointerId (.int 3) (.int 12) { program := twinStructs })).program →
        ∀ r ∈ q.module.typesValues, (q.inst r).opcode = .typePointer →
          (q.inst r).operands.map Operand.value = [.int 12, .int 2] := by
      rintro q rfl
      decide +kernel
    cases operands.symm.trans (other _ rfl r listed pointer)
  · intro always
    let full : Program := { twinStructs with module := { twinStructs.module with idBound := maxIdBound } }
    obtain ⟨id, w', ran⟩ := always full (.int 3) (.int 12) (by decide +kernel) (by decide)
      ⟨_, ⟨⟨2⟩, by decide, rfl⟩, rfl, rfl⟩
    have fails : Change.answer? (pointerId (.int 3) (.int 12) { program := full }) = none := by decide +kernel
    rw [ran] at fails
    cases fails

end BlockTally.Workspace
