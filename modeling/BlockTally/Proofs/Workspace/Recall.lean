import BlockTally.Proofs.Workspace.Rereading
import BlockTally.Proofs.Workspace.Requests

/-! What a module goes on to answer.

A module that was asked for a type or a constant once answers the next request in the same way and without a new
declaration, whatever was declared, named or annotated meanwhile.
-/

set_option autoImplicit false

namespace BlockTally

namespace Workspace

open Account Contract

variable {w w' : Workspace} {α β : Type} {post : α → Workspace → Prop}

def Request.Keeps (p q : Program) : Prop :=
  ∀ request id, Request.Answered p request id → Request.Answered q request id

theorem Request.keeps_of_tables {p q : Program} (types : q.typeTable = p.typeTable)
    (constants : ∀ c, p.constantTable = .ok c → q.constantTable = .ok c) : Request.Keeps p q := by
  intro request id answered
  cases request with
  | type =>
    obtain ⟨t, read, rest⟩ := answered
    exact ⟨t, types.trans read, rest⟩
  | constant =>
    obtain ⟨⟨c, table, found⟩, range⟩ := answered
    exact ⟨⟨c, constants c table, found⟩, range⟩

theorem Request.keeps_of_readsAlike {p q : Program} (alike : p.ReadsAlike q) : Request.Keeps p q :=
  keeps_of_tables alike.typeTable fun _ table => alike.constantTable.trans table

structure Settled (w : Workspace) : Prop where
  interned : w.Interned
  filed : w.Filed
  apart : w.program.EntriesApart
  positive : 0 < w.program.module.idBound

/-- The second workspace is settled as well, and answers as the first one does. -/
structure Recalls (w w' : Workspace) : Prop where
  settled : w'.Settled
  grows : w.program.Grows w'.program
  keeps : Request.Keeps w.program w'.program

theorem Settled.recalls (h : w.Settled) : w.Recalls w :=
  ⟨h, .refl _, fun _ _ => id⟩

theorem Recalls.trans {w'' : Workspace} (first : w.Recalls w') (second : w'.Recalls w'') : w.Recalls w'' where
  settled := second.settled
  grows := first.grows.trans second.grows
  keeps request id answered := second.keeps request id (first.keeps request id answered)

theorem Settled.recalls_of_steps (h : w.Settled) (moves : (steps ∅).moves w w') (interned : w'.Interned)
    (keeps : Request.Keeps w.program w'.program) : w.Recalls w' := by
  have grows := (extends_of_steps moves).toGrows
  obtain ⟨filed, new⟩ := h.filed.steps moves
  exact ⟨⟨interned, filed, h.apart.later h.filed.lists grows new, Int.lt_of_lt_of_le h.positive grows.module.bound_le⟩,
    grows, keeps⟩

/-- What the index of uses holds is of no interest. -/
theorem Settled.withUses (h : w.Settled) (uses : Option Uses) : w.Recalls { w with facts := { w.facts with uses } } :=
  ⟨⟨h.interned.same rfl ⟨h.interned.current.annotations, h.interned.current.types, h.interned.current.constants⟩,
    ⟨h.filed.lists, h.filed.features⟩, h.apart, h.positive⟩, .refl _, fun _ _ answered => answered⟩

/-- The program grows, and what it lists stays the same. -/
theorem Settled.unlisted {q : Program} (h : w.Settled) (grows : w.program.Grows q)
    (same : ∀ place, q.module.list place = w.program.module.list place)
    (insts : ∀ r, w.program.Holds r → q.inst r = w.program.inst r) : w.Recalls { w with program := q } := by
  have new : w.program.ListsNew q := .of_same same
  have filed : Filed { w with program := q } := h.filed.grown grows new (same .capabilities) (same .extensions) rfl
  have alike : w.program.ReadsAlike q :=
    .of_same (same .typesValues) (same .annotations) h.filed.lists insts grows.module.bound_le
  have current : Current { w with program := q } := by
    have before := h.interned.current
    refine ⟨fun a known => alike.ofProgram.trans (before.annotations a known), ?_, ?_⟩
    · rw [alike.typeTable]
      exact before.types
    · rw [alike.constantTable]
      exact before.constants
  exact ⟨⟨⟨alike.bounded h.interned.bounded filed.lists.globalsHeld, current⟩, filed,
    h.apart.later h.filed.lists grows new, Int.lt_of_lt_of_le h.positive grows.module.bound_le⟩, grows,
    Request.keeps_of_readsAlike alike⟩

/-- Nothing of a settled workspace hangs on the facts that were found. -/
theorem Settled.forget (h : w.Settled) : Settled { program := w.program } :=
  ⟨⟨h.interned.bounded, current_forgotten _⟩, ⟨h.filed.lists, nofun⟩, h.apart, h.positive⟩

/-- What is put into a block is not read. -/
theorem Recalls.inserted {b : BlockRef} {refs : List InstRef} (h : w.Recalls w') (gap : Nat)
    (new : ∀ r ∈ refs, w.program.instructions.size ≤ r.index) : w.Recalls (w'.inserted b gap refs) := by
  have settled := h.settled
  have module : (w'.inserted b gap refs).program.module = w'.program.module := Program.module_inserted
  have insts (r : InstRef) : (w'.inserted b gap refs).program.inst r = w'.program.inst r := Program.inst_inserted r
  have filed : (w'.inserted b gap refs).program.Filed := by
    intro place r member
    rw [module] at member
    exact Program.holds_inserted.mpr (settled.filed.lists place r member)
  -- Readings see the global instructions only, and those are untouched.
  have alike : w'.program.ReadsAlike (w'.inserted b gap refs).program := .inserted settled.filed.lists b gap refs
  have current : (w'.inserted b gap refs).Current := by
    have before := settled.interned.current
    refine ⟨fun a known => alike.ofProgram.trans (before.annotations a known), ?_, ?_⟩
    · rw [alike.typeTable]
      exact before.types
    · rw [alike.constantTable]
      exact before.constants
  refine ⟨⟨⟨alike.bounded settled.interned.bounded filed.globalsHeld, current⟩, ⟨filed, fun f known => ?_⟩, ?_, ?_⟩,
    h.grows.inserted b gap new, fun request id answered => ?_⟩
  · refine (settled.filed.features f known).extended (congrArg _ module) (congrArg _ module) fun _ r _ => ⟨[], ?_⟩
    rw [insts, Instruction.extended_nil]
  · intro late r entry read
    rw [module] at late entry
    rw [Program.Reads, insts, module] at read
    exact settled.apart late r entry read
  · rw [module]
    exact settled.positive
  · exact Request.keeps_of_readsAlike alike request id (h.keeps request id answered)

/-! ### Steps aside -/

variable {targets : Set Value}

/-- A step aside changes nothing that is read. -/
theorem Aside.readsAlike (aside : w.Aside ∅ targets w') (h : w.Settled) : w.program.ReadsAlike w'.program := by
  have lists := h.filed.lists
  cases aside with
  | find find => exact find.program_eq ▸ .refl _
  | name | capability | extension =>
    exact .of_same rfl rfl lists (fun _ held => Program.inst_made_of_lt _ held) (Int.le_refl _)
  | @lengthen r operand late entry _ _ =>
    refine ⟨rfl, rfl, fun s _ => ?_, fun s read => ?_, Int.le_refl _⟩
    · obtain ⟨more, same⟩ := w.program.inst_withOperand_extended r s operand
      exact (congrArg Instruction.opcode same).trans rfl
    · refine w.program.inst_withOperand_of_ne operand fun here => ?_
      exact h.apart late r entry (here ▸ read)

theorem Settled.aside (h : w.Settled) (aside : w.Aside ∅ targets w') : w.Recalls w' := by
  have alike := aside.readsAlike h
  have current := h.interned.current
  have bounded := alike.bounded h.interned.bounded (h.filed.aside aside).lists.globalsHeld
  refine h.recalls_of_steps (.single (.aside aside)) ⟨bounded, ?_⟩ (Request.keeps_of_readsAlike alike)
  refine ⟨fun a known => alike.ofProgram.trans ?_, fun t known => ?_, fun c known => ?_⟩
  · cases aside with
    | find find =>
      cases find with
      | annotations _ read =>
        obtain rfl := Option.some.inj known
        exact read
      | uses | features => exact current.annotations a known
    | name | capability | extension | lengthen => exact current.annotations a known
  · rw [alike.typeTable]
    refine current.types t (Eq.trans ?_ known)
    cases aside with
    | find find => exact find.looks.2.1.symm
    | name | capability | extension | lengthen => rfl
  · rw [alike.constantTable]
    refine current.constants c (Eq.trans ?_ known)
    cases aside with
    | find find => exact find.looks.2.2.symm
    | name | capability | extension | lengthen => rfl

theorem Settled.asides (h : w.Settled) (moves : (asides ∅ targets).moves w w') :
    w.Recalls w' ∧ w.program.ReadsAlike w'.program := by
  induction moves with
  | refl => exact ⟨h.recalls, .refl _⟩
  | tail _ aside ih => exact ⟨ih.1.trans (ih.1.settled.aside aside), ih.2.trans (aside.readsAlike ih.1.settled)⟩

/-- In a settled workspace, what was answered before is answered after an action, unless it fails. -/
def Recalling (change : Action α) (w : Workspace) (post : α → Workspace → Prop) : Prop :=
  w.Settled → Then change w fun a w' => w.Recalls w' ∧ post a w'

namespace Recalling

theorem mono {change : Action α} {post' : α → Workspace → Prop} (h : Recalling change w post)
    (weaker : ∀ a w', w.Recalls w' → post a w' → post' a w') : Recalling change w post' :=
  fun settled => .mono (h settled) (fun a w' held => ⟨held.1, weaker a w' held.1 held.2⟩) fun _ _ => id

theorem bind {change : Action α} {next : α → Action β} {last : β → Workspace → Prop} (h : Recalling change w post)
    (rest : ∀ a w', w.Recalls w' → post a w' → Recalling (next a) w' last) : Recalling (change >>= next) w last :=
  fun settled => (h settled).bind fun a w' held =>
    .mono (rest a w' held.1 held.2 held.1.settled) (fun _ _ later => ⟨held.1.trans later.1, later.2⟩) fun _ _ => id

theorem pure {a : α} (h : post a w) : Recalling (Pure.pure a) w post :=
  fun settled => .pure ⟨settled.recalls, h⟩

theorem bind_get {next : Workspace → Action β} {last : β → Workspace → Prop} (h : Recalling (next w) w last) :
    Recalling (MonadState.get >>= next) w last := h

theorem check {result : Except Error α} {next : α → Action β} {last : β → Workspace → Prop}
    (rest : ∀ a, result = .ok a → Recalling (next a) w last) :
    Recalling ((liftM result : Action α) >>= next) w last :=
  fun settled => Then.check fun a found => rest a found settled

theorem of_asides {change : Action α} (h : (asides ∅ Set.univ).Keeps change w post) :
    Recalling change w fun a w' => w.program.ReadsAlike w'.program ∧ post a w' := by
  refine fun settled => .mono h (fun a w' held => ?_) fun _ _ _ => True.intro
  obtain ⟨moves, answer⟩ := held
  obtain ⟨recalls, alike⟩ := settled.asides moves
  exact ⟨recalls, alike, answer⟩

/-- Another account of the same action. -/
theorem and {change : Action α} {post' : α → Workspace → Prop} (h : Recalling change w post)
    (also : w.Settled → Then change w post') : Recalling change w fun a w' => post a w' ∧ post' a w' :=
  fun settled => .mono (Change.After.and (h settled) (also settled))
    (fun _ _ held => ⟨held.1.1, held.1.2, held.2⟩) fun _ _ _ => True.intro

/-- A request that does no harm to other answers. -/
theorem of_then {change : Action α} (stepped : (steps ∅).Keeps change w fun _ _ => True)
    (then' : w.Settled → Then change w fun a w' => w'.Interned ∧ Request.Keeps w.program w'.program ∧ post a w') :
    Recalling change w post := by
  refine fun settled => .mono (Change.After.and stepped (then' settled)) (fun a w' held => ?_) fun _ _ _ => True.intro
  obtain ⟨⟨moves, -⟩, interned, keeps, answer⟩ := held
  exact ⟨settled.recalls_of_steps moves interned keeps, answer⟩

end Recalling

/-! ### Requests -/

theorem steps_request (request : Request) : (steps ∅).Keeps request.run w fun _ _ => True := by
  cases request with
  | type ty => exact (steps_of_asks (asks_typeId ty fun _ _ => True.intro)).trivial
  | constant ty value => exact steps_of_asks (asks_constantId ty value fun _ _ => True.intro)

/-- A request is answered for good. If it has been answered before, nothing is declared for it. -/
theorem recalling_request {request : Request} (formed : request.Formed) : Recalling request.run w fun id w' =>
    request.Answered w'.program id ∧ ((∃ id', request.Answered w.program id') → w'.program = w.program) := by
  refine .of_then (steps_request request) fun h => ?_
  have again : Then request.run w fun _ w' => (∃ id', request.Answered w.program id') → w'.program = w.program := by
    by_cases known : ∃ id', request.Answered w.program id'
    · obtain ⟨id', answered⟩ := known
      exact .mono (again_request h.interned answered) (fun _ _ held _ => held.2.2) fun _ _ => False.elim
    · exact Change.After.mono (steps_request request) (fun _ _ _ again => absurd again known) fun _ _ _ => True.intro
  exact .mono (Change.After.and (then_request formed h.interned) again)
    (fun id w' held => ⟨held.1.interned, held.1.keeps, held.1.answered, held.2⟩) fun _ _ _ => True.intro

theorem recalling_needTypes : Recalling needTypes w fun t w' => w'.program = w.program ∧
    ∃ t', w.program.typeTable = .ok t' ∧ t.Agrees t' := by
  refine .of_then (steps_of_asks asks_needTypes).trivial fun h => ?_
  refine .mono (then_needTypes 0 h.interned) (fun t w' held => ?_) fun _ _ => id
  obtain ⟨moved, program, -, read⟩ := held
  exact ⟨moved.interned, fun _ _ answered => answered.later moved.later, program, program ▸ read⟩

theorem recalling_needConstants : Recalling needConstants w fun _ w' => w'.program = w.program := by
  refine .of_then (steps_of_asks asks_needConstants) fun h => ?_
  refine .mono (after_needConstants h.interned.current) (fun c w' held => ?_) fun _ _ _ => True.intro
  obtain ⟨-, current, program, -⟩ := held
  exact ⟨h.interned.same program current, program ▸ fun _ _ => id, program⟩

/-- A type with an answer is found under it again. -/
theorem recalling_typeOf {ty : Ty} {id : Id} (answered : (Request.type ty).Answered w.program id) :
    Recalling (typeOf (.int id)) w fun ty' w' => ty'.key = ty.key ∧ w'.program = w.program := by
  unfold typeOf
  refine recalling_needTypes.bind fun t w' recalls held => ?_
  obtain ⟨program, t', read, agrees⟩ := held
  obtain ⟨t₀, read₀, -, -, ty₀, found, key⟩ := answered
  obtain rfl := Except.ok.inj (read.symm.trans read₀)
  obtain ⟨ty', found', key'⟩ := agrees.symm.type found
  rw [found']
  exact .pure ⟨key'.trans key, program⟩

/-- A pointer to a type that nothing else is like. -/
theorem recalling_pointerId {ty : Ty} {id : Id} {storage : Int} (rigid : ∀ ty' : Ty, ty'.key = ty.key → ty' = ty)
    (formed : ty.Formed) (answered : (Request.type ty).Answered w.program id) :
    Recalling (pointerId (.int id) (.int storage)) w fun id' w' =>
      (Request.type (.pointer ty (.int storage))).Answered w'.program id' ∧
        ((∃ id', (Request.type (.pointer ty (.int storage))).Answered w.program id') → w'.program = w.program) := by
  unfold pointerId
  refine (recalling_typeOf answered).bind fun ty' w' recalls held => ?_
  obtain ⟨key, program⟩ := held
  obtain rfl := rigid ty' key
  have pointer : (Request.type (.pointer ty' (.int storage))).Formed := ⟨⟨storage, rfl⟩, formed, Decoration.settled_nil⟩
  refine .check fun _ _ => (recalling_request pointer).mono fun id' w'' _ held => ?_
  rwa [program] at held

/-! ### Decorations -/

def decoration (id : Id) (number : Int) (values : List Value) : Instruction where
  opcode := .decorate
  operands := .ofId (.int id) :: ⟨.decoration, .int number⟩ :: values.map .literal

theorem decoration_values (id : Id) (number : Int) (values : List Value) :
    (decoration id number values).valuesFrom 1 = .int number :: values := by
  change Value.int number :: (values.map Operand.literal).map Operand.value = _
  rw [List.map_map]
  exact congrArg _ (List.map_id values)

/-- After an annotation of an id that is no type's, the tables are the same. -/
theorem Interned.noted {b : Annotations} {id : Id} {i : Instruction} (h : w.Interned)
    (program : w'.program = (w.program.made i).appended .annotations ⟨w.program.instructions.size⟩)
    (target : i.target? = some (.int id)) (below : id < w.program.module.idBound)
    (apart : ∀ r ∈ w.program.declarations, (w.program.inst r).resultId ≠ id)
    (found : w'.facts.annotations = some b) (read : Annotations.ofProgram w'.program = .ok b)
    (types : w'.facts.types = w.facts.types) (constants : w'.facts.constants = w.facts.constants) :
    w'.Interned ∧ Request.Keeps w.program w'.program := by
  obtain ⟨q, facts⟩ := w'
  obtain rfl : q = _ := program
  have adds := h.bounded.held.noted i
  have named : ∀ n ∈ [(⟨w.program.instructions.size⟩ : InstRef)],
      (((w.program.made i).appended .annotations ⟨w.program.instructions.size⟩).inst n).target? = some (.int id) := by
    intro n member
    obtain rfl := List.mem_singleton.mp member
    rw [Program.inst_appended, Program.inst_made]
    exact target
  -- The annotated id belongs to no type, so both tables are read as before.
  obtain ⟨sameTypes, sameConstants⟩ := adds.tables read fun s member n among same => by
    rw [named n among] at same
    exact apart s member (Value.int.inj (Option.some.inj same)).symm
  have held := h.bounded.held.of_adds adds (Nat.le_of_lt (w.program.holds_made i)) fun n member => by
    obtain rfl := List.mem_singleton.mp member
    exact w.program.holds_made i
  refine ⟨⟨adds.bounded h.bounded held (Int.le_refl _) fun n among id' same => ?_, ?_⟩,
    Request.keeps_of_tables sameTypes fun _ table => sameConstants.trans table⟩
  · rw [named n among] at same
    exact (Value.int.inj (Option.some.inj same)) ▸ below
  · refine ⟨fun a known => Option.some.inj (found.symm.trans known) ▸ read, fun t known => ?_, fun c known => ?_⟩
    · rw [sameTypes]
      exact h.current.types t (types.symm.trans known)
    · rw [sameConstants]
      exact h.current.constants c (constants.symm.trans known)

/-- An id is decorated anew. -/
theorem then_decorate {id : Id} {number : Int} {values : List Value}
    (current : ∀ a, w.facts.annotations = some a → Annotations.ofProgram w.program = .ok a)
    (held : w.program.GlobalsHeld) (new : ∀ r ∈ w.program.module.annotations,
      (w.program.inst r).target? = some (.int id) → (w.program.inst r).valuesFrom 1 ≠ .int number :: values) :
    Then (decorate (.int id) (.int number :: values)) w fun _ w' =>
      w'.program = (w.program.made (decoration id number values)).appended .annotations ⟨w.program.instructions.size⟩ ∧
        (∃ b, w'.facts.annotations = some b ∧ Annotations.ofProgram w'.program = .ok b) ∧
        w'.facts.types = w.facts.types ∧ w'.facts.constants = w.facts.constants := by
  unfold decorate
  have found : Then needAnnotations w fun a w' => Annotations.ofProgram w.program = .ok a ∧ w' = w.withAnnotations a :=
    .mono (after_needAnnotations current) (fun _ _ held => held) fun _ _ _ => True.intro
  refine found.bind fun a w₁ held' => Then.check fun _ read => ?_
  obtain ⟨annotated, rfl⟩ := held'
  obtain rfl := Except.ok.inj read
  -- The table lists what the program has, so it lacks the new values, too.
  have absent : Value.int number :: values ∉ Annotations.valuesOn w.program a (.int id) .decorate := by
    intro member
    obtain ⟨r, among, equal⟩ := List.mem_map.mp member
    obtain ⟨listed, target⟩ := (Annotations.mem_on annotated).mp (List.mem_of_mem_filter among)
    exact new r listed target equal
  rw [← decoration_values id number values] at absent
  refine .mono (after_annotate (w := w.withAnnotations a) rfl (Annotations.find?_of_new absent)) (fun _ w' held' => ?_)
    fun _ _ _ => True.intro
  obtain ⟨program, ⟨b, found, analyzed⟩, types, constants⟩ := held'
  refine ⟨program, ⟨b, found, ?_⟩, types, constants⟩
  rw [program] at analyzed ⊢
  refine (held.noted (decoration id number values)).ofProgram.trans ?_
  rw [annotated]
  exact except_bind_ok_iff.mpr ⟨a, rfl, except_bind_ok_iff.mpr ⟨b, analyzed, rfl⟩⟩

/-- An id that is no type's is decorated anew. -/
theorem recalling_decorate {id : Id} {number : Int} {values : List Value} {given : List Decoration}
    (carries : w.program.Carries id given) (new : .int number :: values ∉ given) :
    Recalling (decorate (.int id) (.int number :: values)) w fun _ w' =>
      w'.program = (w.program.made (decoration id number values)).appended .annotations ⟨w.program.instructions.size⟩ ∧
        w'.program.Carries id ((.int number :: values) :: given) := by
  refine .of_then (steps_of_notes (notes_decorate _ _)).trivial fun h => ?_
  have absent (r : InstRef) (listed : r ∈ w.program.module.annotations)
      (target : (w.program.inst r).target? = some (.int id)) :
      (w.program.inst r).valuesFrom 1 ≠ .int number :: values :=
    fun equal => new (equal ▸ carries.given r listed target)
  have decorated := then_decorate h.interned.current.annotations h.interned.bounded.held absent
  refine .mono decorated (fun _ w' held => ?_) fun _ _ _ => True.intro
  obtain ⟨program, ⟨b, found, read⟩, types, constants⟩ := held
  obtain ⟨interned, keeps⟩ :=
    h.interned.noted program rfl carries.below carries.declarations found read types constants
  refine ⟨interned, keeps, program, ?_⟩
  rw [program]
  refine carries.noted (h.interned.bounded.held.noted (decoration id number values)) (Int.le_refl _) ?_
  refine Eq.trans ?_ (decoration_values id number values)
  exact congrArg (·.valuesFrom 1) (w.program.inst_made (decoration id number values))

end Workspace

end BlockTally
