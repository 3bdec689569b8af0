import BlockTally.Proofs.Program.Instrumentation
import BlockTally.Proofs.Workspace.Declaring

/-! Requests and their answers.

The answers to requests for types and constants hold for good: tables that are read afresh give them again, and so do
the same requests, also after all facts were forgotten.
-/

set_option autoImplicit false

namespace BlockTally

namespace Workspace

variable {w : Workspace} {size : Nat} {ty : Ty}

/-! ### Requests for constants -/

/-- Declaring a constant that was not there. -/
theorem Interned.constant {t : TypeTable} {c live : ConstantTable} {typeId : Id}
    (value : Value) (uses : Option Uses) (h : w.Interned) (read : w.program.typeTable = .ok t)
    (table : w.program.constantTable = .ok c) (agrees : live.Agrees c) (known : Ty.KnownAs t.type? typeId ty)
    (nonzero : w.program.module.idBound ≠ 0) :
    let p := w.program.declared
      { opcode := .constant, typeId, resultId := w.program.module.idBound, operands := [⟨.literalNumber, value⟩] }
    Interned { program := p
               facts := { w.facts with
                          uses, constants := some (live.register ty value w.program.module.idBound) } } ∧
      p.typeTable = .ok t ∧ ∃ c', p.constantTable = .ok c' ∧
        (∀ other v id, c.id? other v = some id → c'.id? other v = some id) ∧
        (c.id? ty value = none → c'.id? ty value = some w.program.module.idBound) := by
  intro p
  obtain ⟨ty', found, key⟩ := known
  obtain ⟨adds, held⟩ := h.bounded.held.declared
    { opcode := .constant, typeId, resultId := w.program.module.idBound, operands := [⟨.literalNumber, value⟩] }
  have inst := w.program.inst_declared
    { opcode := .constant, typeId, resultId := w.program.module.idBound, operands := [⟨.literalNumber, value⟩] }
  have declared : w.program.Declared p ⟨w.program.instructions.size⟩ [] := by
    refine ⟨adds, held, rfl, congrArg Instruction.resultId inst, nonzero, fun _ typed => ?_, nofun⟩
    rw [inst] at typed ⊢
    exact (h.bounded.table read).1.ids _ _ found typed
  obtain ⟨read', table'⟩ := declared.constant h.bounded read table inst found
  -- A fresh reading registers the constant last, for the type that the type id is known as. It has the same key.
  have new (other : Ty) (v : Value) := ConstantTable.id?_register c ty' other value v w.program.module.idBound
  have same : c.id? ty' value = c.id? ty value := by simp only [ConstantTable.id?, key]
  refine ⟨⟨declared.bounded h.bounded, ⟨fun a known => ?_, fun t' known => ?_, fun c' known => ?_⟩⟩, read', _, table',
    fun other v id old => ?_, fun absent => ?_⟩
  · exact (adds.ofProgram_eq rfl).trans (h.current.annotations a known)
  · obtain ⟨t₀, read₀, agrees⟩ := h.current.types t' known
    obtain rfl := Except.ok.inj (read.symm.trans read₀)
    exact ⟨t, read', agrees⟩
  · obtain rfl := Option.some.inj known
    exact ⟨_, table', agrees.register key.symm value _⟩
  · rw [new]
    split
    next here =>
      obtain ⟨key', rfl⟩ := Prod.mk.inj here
      rw [show c.id? ty' value = c.id? other value by simp only [ConstantTable.id?, key'], old]
      rfl
    next => exact old
  · rw [new, if_pos (by rw [key]), same, absent]
    rfl

theorem then_needConstants (size : Nat) (h : w.Interned) : Then needConstants w fun live w' => w.Steps size w' ∧
    w'.facts.constants = some live ∧ ∃ c, w'.program.constantTable = .ok c ∧ live.Agrees c := by
  refine .mono (after_needConstants h.current) (fun live w' held => ?_) fun _ _ _ => True.intro
  obtain ⟨read, current, program, types, constants⟩ := held
  refine ⟨⟨h.same program current, program ▸ .refl size _, types, fun _ => ?_⟩, constants, program ▸ read⟩
  rw [constants]
  rfl

inductive Request where
  | type (ty : Ty)
  | constant (ty : Ty) (value : Value)
  deriving DecidableEq, Repr

namespace Request

def run : Request → Action Id
  | .type ty => typeId ty
  | .constant ty value => constantId ty value

def Formed : Request → Prop
  | .type ty | .constant ty _ => ty.Formed

/-- A fresh reading agrees with the answer to the request. -/
def Answered (p : Program) : Request → Id → Prop
  | .type ty, id => p.Stands id ty
  | .constant ty value, id => p.StandsConstant id ty value ∧ checkRange ty value = .ok ()

theorem Answered.later {p q : Program} {request : Request} {id : Id} (h : Answered p request id)
    (later : p.Later size q) : Answered q request id := by
  cases request with
  | type ty => exact Program.Stands.later h later
  | constant ty value => exact ⟨h.1.later later, h.2⟩

end Request

structure Served (w : Workspace) (request : Request) (id : Id) (w' : Workspace) : Prop where
  interned : w'.Interned
  answered : request.Answered w'.program id
  keeps : ∀ other id', Request.Answered w.program other id' → other.Answered w'.program id'

theorem then_constantId {value : Value} (formed : ty.Formed) (h : w.Interned) :
    Then (constantId ty value) w (w.Served (.constant ty value)) := by
  unfold constantId
  refine (then_needConstants ty.size h).bind fun live w₁ held => ?_
  obtain ⟨steps, known, c, table, agrees⟩ := held
  refine Then.check fun _ checked => ?_
  split
  next id found =>
    rw [agrees] at found
    exact .pure ⟨steps.interned, ⟨⟨c, table, found⟩, checked⟩, fun other id' answered => answered.later steps.later⟩
  next absent =>
    rw [agrees] at absent
    refine (then_typeId ty formed steps.interned).bind fun typeId w₂ held => ?_
    obtain ⟨steps', t, read, -, -, knownAs⟩ := held
    have later := steps.later.trans steps'.later
    refine Change.After.bind (after_takeId (fun _ => True.intro) fun _ => ?_)
    split
    · exact .throw True.intro
    next nonzero =>
      refine Change.After.bind (after_newInst (Change.After.bind (after_addGlobal fun uses => ?_)))
      -- The constants were found before, so the new one is not among them yet.
      obtain ⟨live', known'⟩ := Option.isSome_iff_exists.mp (steps'.constants (by rw [known]; rfl))
      obtain ⟨c', table', agrees'⟩ := steps'.interned.current.constants live' known'
      obtain rfl := Except.ok.inj ((steps'.later.constants c table).symm.trans table')
      obtain ⟨interned, read', c', table'', keeps, new⟩ :=
        steps'.interned.constant value uses read table' agrees' knownAs nonzero
      refine (then_needConstants_known (by exact known')).bind fun live'' w₃ held => ?_
      obtain ⟨rfl, rfl⟩ := held
      refine Change.After.bind (.modify (.pure ⟨interned, ⟨⟨c', table'', new absent⟩, checked⟩,
        fun other id' answered => ?_⟩))
      have answered' := answered.later later
      cases other with
      | type other =>
        obtain ⟨t', read'', rest⟩ := answered'
        obtain rfl := Except.ok.inj (read.symm.trans read'')
        exact ⟨t, read', rest⟩
      | constant other v =>
        obtain ⟨⟨c₀, table₀, found⟩, range⟩ := answered'
        obtain rfl := Except.ok.inj (table'.symm.trans table₀)
        exact ⟨⟨c', table'', keeps _ _ _ found⟩, range⟩

theorem then_request {request : Request} (formed : request.Formed) (h : w.Interned) :
    Then request.run w (w.Served request) := by
  cases request with
  | type ty =>
    refine .mono (then_typeId ty formed h) (fun id w' held => ?_) fun _ _ _ => True.intro
    exact ⟨held.1.interned, held.2, fun other id' answered => answered.later held.1.later⟩
  | constant ty value => exact then_constantId formed h

/-- The answers to a list of requests are right once all have been given. -/
theorem then_requests {requests : List Request} (formed : ∀ request ∈ requests, request.Formed) (h : w.Interned) :
    Then (requests.mapM Request.run) w fun ids w' => w'.Interned ∧
      List.Forall₂ (Request.Answered w'.program) requests ids ∧
      ∀ other id', Request.Answered w.program other id' → other.Answered w'.program id' := by
  induction requests generalizing w with
  | nil => exact .pure ⟨h, .nil, fun _ _ answered => answered⟩
  | cons request rest ih =>
    rw [List.forall_mem_cons] at formed
    rw [List.mapM_cons]
    refine (then_request formed.1 h).bind fun id w₁ served => ?_
    refine (ih formed.2 served.interned).bind fun ids w₂ held => .pure ?_
    obtain ⟨interned, answered, keeps⟩ := held
    exact ⟨interned, .cons (keeps _ _ served.answered) answered,
      fun other id' before => keeps other id' (served.keeps other id' before)⟩

/-! ### Requests that are made again -/

/-- A request that was answered gets the same answer, and nothing is changed. -/
theorem again_request {request : Request} {id : Id} (h : w.Interned) (answered : request.Answered w.program id) :
    Change.After request.run w (fun id' w' => id' = id ∧ w'.Interned ∧ w'.program = w.program)
      fun _ _ => False := by
  cases request with
  | type ty =>
    obtain ⟨t, read, nonzero, rfl, -⟩ := answered
    have found : Change.After (needTypes) w (fun live w' => live.Agrees t ∧ w'.Interned ∧ w'.program = w.program)
        fun _ _ => False := by
      refine .mono (after_needTypes h.current) (fun live w' held => ?_) fun _ _ none => none t read
      obtain ⟨⟨t', read', agrees⟩, current, program, -⟩ := held
      obtain rfl := Except.ok.inj (read.symm.trans read')
      exact ⟨agrees, h.same program current, program⟩
    -- Whatever the type is, the first step of the request is to look for its id.
    have looked (make : Action Id) : Change.After (known ty make) w
        (fun id' w' => id' = t.id ty ∧ w'.Interned ∧ w'.program = w.program) fun _ _ => False := by
      refine .bind (.mono found (fun live w' held => ?_) fun _ _ => id)
      obtain ⟨agrees, interned, program⟩ := held
      dsimp only
      rw [agrees.id, if_pos nonzero]
      exact .pure ⟨rfl, interned, program⟩
    change Change.After (typeId ty) w _ _
    cases ty <;> unfold typeId <;> exact looked _
  | constant ty value =>
    obtain ⟨⟨c, table, found⟩, range⟩ := answered
    obtain ⟨t, read, -⟩ := except_bind_ok_iff.mp table
    change Change.After (constantId ty value) w _ _
    unfold constantId
    refine .bind (.mono (after_needConstants h.current) (fun live w' held => ?_) fun _ _ none => none t read)
    obtain ⟨⟨c', table', agrees⟩, current, program, -⟩ := held
    obtain rfl := Except.ok.inj (table.symm.trans table')
    rw [range]
    refine .bind (.pure ?_)
    dsimp only
    rw [agrees, found]
    exact .pure ⟨rfl, h.same program current, program⟩

theorem again_requests {again : List (Request × Id)} (h : w.Interned)
    (answered : ∀ pair ∈ again, pair.1.Answered w.program pair.2) :
    Change.After ((again.map Prod.fst).mapM Request.run) w
      (fun ids w' => ids = again.map Prod.snd ∧ w'.program = w.program) fun _ _ => False := by
  induction again generalizing w with
  | nil => exact .pure ⟨rfl, rfl⟩
  | cons pair rest ih =>
    rw [List.forall_mem_cons] at answered
    rw [List.map_cons, List.mapM_cons]
    refine .bind (.mono (again_request h answered.1) (fun id w₁ held => ?_) fun _ _ => id)
    obtain ⟨rfl, interned, program⟩ := held
    refine .bind (.mono (ih interned (program ▸ answered.2)) (fun ids w₂ held => ?_) fun _ _ => id)
    obtain ⟨rfl, program'⟩ := held
    exact .pure ⟨rfl, program'.trans program⟩

end Workspace

/-! ### Requests on a valid module -/

namespace Program

def TypesNumbered (p : Program) : Prop :=
  ∀ r ∈ p.declarations, (p.inst r).resultId ≠ 0

instance (p : Program) : Decidable p.TypesNumbered :=
  inferInstanceAs (Decidable (∀ r ∈ p.declarations, _))

def AnnotatesBelow (p : Program) : Prop :=
  ∀ r ∈ p.module.annotations, ∀ id, (p.inst r).target? = some (.int id) → id < p.module.idBound

instance (i : Instruction) (bound : Int) : Decidable (∀ id, i.target? = some (.int id) → id < bound) :=
  match i.target? with
  | some (.int id) =>
    decidable_of_iff (id < bound)
      ⟨fun below _ same => Value.int.inj (Option.some.inj same) ▸ below, fun all => all id rfl⟩
  | some (.str _) | none => .isTrue nofun

instance (p : Program) : Decidable p.AnnotatesBelow :=
  inferInstanceAs (Decidable (∀ r ∈ p.module.annotations, _))

theorem bounded_of_wellFormed {p : Program} (formed : p.WellFormed) (closed : p.Closed) (numbered : p.TypesNumbered)
    (targets : p.AnnotatesBelow) : p.Bounded where
  held r member := by
    rcases List.mem_append.mp member with global | note
    · exact closed r (mem_allInsts_of_list .typesValues global)
    · exact closed r (mem_allInsts_of_list .annotations note)
  distinct := by
    rw [← idsOf_declarations numbered]
    exact formed.distinct.sublist (p.idsOf_sublist (List.filter_sublist.trans p.typesValues_sublist))
  ids r member := by
    have result := numbered r member
    have listed : r ∈ p.allInsts := mem_allInsts_of_list .typesValues (List.mem_of_mem_filter member)
    exact ⟨result, (formed.bounded _ (mem_resultIds.mpr ⟨r, listed, rfl, result⟩)).2⟩
  typed r member _ typed := by
    have used : Value.int (p.inst r).typeId ∈ (p.inst r).usedIds := by
      simp [Instruction.usedIds, Instruction.hasType, typed]
    have defined := formed.defined r (mem_allInsts_of_list .typesValues member) _ used
    exact (formed.bounded _ (defines_int.mp defined)).2
  targets := targets

end Program

namespace Workspace

/-- The answers hold for good: they are found again when the tables are read afresh, and the requests for them can be
repeated in any order, with or without the facts found so far, and get the same answers without any change. -/
structure RoundTrips (w : Workspace) (answered : List (Request × Id)) : Prop where
  types : ∀ ty id, (.type ty, id) ∈ answered → ∃ t w', needTypes { program := w.program } = .ok t w' ∧
    (∃ ty', t.type? (.int id) = some ty' ∧ ty'.key = ty.key) ∧ t.id ty = id
  constants : ∀ ty value id, (.constant ty value, id) ∈ answered → ∃ c w',
    needConstants { program := w.program } = .ok c w' ∧ c.id? ty value = some id
  again : ∀ again ⊆ answered, ∀ start, start = w ∨ start = { program := w.program } →
    ∃ w', (again.map Prod.fst).mapM Request.run start = .ok (again.map Prod.snd) w' ∧ w'.program = w.program

theorem roundTrips_of_answered {w : Workspace} {answered : List (Request × Id)} (h : w.Interned)
    (right : ∀ pair ∈ answered, pair.1.Answered w.program pair.2) : w.RoundTrips answered where
  types ty id member := by
    obtain ⟨t, read, nonzero, found, known⟩ := right _ member
    have table := after_needTypes (current_forgotten w.program)
    obtain ⟨live, w', ran, ⟨t', read', agrees⟩, -⟩ :=
      exists_ok (.mono table (fun _ _ held => held) fun _ _ none => none t read)
    obtain rfl := Except.ok.inj (read.symm.trans read')
    obtain ⟨ty', type, key⟩ := known
    obtain ⟨ty'', type', key'⟩ := agrees.symm.type type
    exact ⟨live, w', ran, ⟨ty'', type', key'.trans key⟩, (agrees.id ty).trans found⟩
  constants ty value id member := by
    obtain ⟨⟨c, table, found⟩, -⟩ := right _ member
    obtain ⟨t, read, -⟩ := except_bind_ok_iff.mp table
    have constants := after_needConstants (current_forgotten w.program)
    obtain ⟨live, w', ran, ⟨c', table', agrees⟩, -⟩ :=
      exists_ok (.mono constants (fun _ _ held => held) fun _ _ none => none t read)
    obtain rfl := Except.ok.inj (table.symm.trans table')
    exact ⟨live, w', ran, (agrees ty value).trans found⟩
  again again part start from' := by
    have interned : start.Interned ∧ start.program = w.program := by
      rcases from' with rfl | rfl
      · exact ⟨h, rfl⟩
      · exact ⟨h.same rfl (current_forgotten _), rfl⟩
    obtain ⟨interned, program⟩ := interned
    have answered' : ∀ pair ∈ again, pair.1.Answered start.program pair.2 :=
      fun pair member => program ▸ right pair (part member)
    -- What is answered already is found, so asking again declares nothing.
    obtain ⟨ids, w', ran, rfl, same⟩ := exists_ok (again_requests interned answered')
    exact ⟨w', ran, same.trans program⟩

/-- On a valid module the answers to requests hold for good, if no annotation is of an id that is still to be
taken. -/
theorem roundTrips_of_requests {p : Program} (valid : p.validate = .ok ()) (closed : p.Closed)
    (numbered : p.TypesNumbered) (targets : p.AnnotatesBelow) {requests : List Request}
    (formed : ∀ request ∈ requests, request.Formed) {ids : List Id} {w : Workspace}
    (ran : requests.mapM Request.run { program := p } = .ok ids w) : w.RoundTrips (requests.zip ids) := by
  have bounded := Program.bounded_of_wellFormed (Program.validate_ok_iff.mp valid) closed numbered targets
  have start : Interned { program := p } := ⟨bounded, current_forgotten p⟩
  obtain ⟨interned, answered, -⟩ := (then_requests formed start).of_ok ran
  refine roundTrips_of_answered interned fun pair member => ?_
  exact (List.forall₂_iff_zip.mp answered).2 member

/-- A module whose only type is decorated, so that a plain one has to be declared. -/
def decoratedInteger : Program where
  instructions := ⟨#[
    { instruction := { opcode := .typeInt, resultId := 1, operands := [.literal (.int 32), .literal (.int 0)] } },
    { instruction := { opcode := .decorate, operands := [.ofId (.int 1), ⟨.decoration, .int 0⟩] } }]⟩
  module := { idBound := 2, annotations := [⟨1⟩], typesValues := [⟨0⟩] }

/-- A decorated structure of an array, a constant of the type in it, and a pointer with a numeral. -/
def sampleRequests : List Request :=
  [.type (.struct [.wrap .runtimeArray (Ty.uint 32) [[.int 6, .int 4]]] [[.int 0, .int 35, .int 0]] [[.int 2]]),
    .constant (Ty.uint 32) (.int 7),
    .type (.pointer (Ty.uint 32) (.str "12"))]

theorem formed_sampleRequests : ∀ request ∈ sampleRequests, request.Formed := by
  have single {d : Decoration} (integers : ∀ v ∈ d, ∃ number : Int, v = .int number) : Decoration.Settled [d] :=
    ⟨rfl, List.pairwise_singleton _ _, List.forall_mem_singleton.mpr integers⟩
  have none := Decoration.settled_nil
  simp only [sampleRequests, List.forall_mem_cons]
  refine ⟨⟨⟨⟨True.intro, none, single ?_⟩, True.intro⟩, single ?_, single ?_⟩, none,
    ⟨⟨12, by decide⟩, none, none⟩, nofun⟩
  all_goals simp

theorem roundTrips_of_requests_sample : ∃ w, sampleRequests.mapM Request.run { program := decoratedInteger } =
    .ok [4, 5, 6] w ∧ w.RoundTrips (sampleRequests.zip [4, 5, 6]) := by
  have ran := Change.eq_ok_of_answer (by decide +kernel :
    Change.answer? (sampleRequests.mapM Request.run { program := decoratedInteger }) = some [4, 5, 6])
  exact ⟨_, ran,
    roundTrips_of_requests (by decide +kernel) (by decide) (by decide) (by decide) formed_sampleRequests ran⟩

/-- A module that is valid although it has an annotation of the first id that is still to be taken: the target is
written as a literal. -/
def literalTarget : Program where
  instructions := ⟨#[
    { instruction := { opcode := .decorate, operands := [.literal (.int 1), ⟨.decoration, .int 2⟩] } }]⟩
  module := { idBound := 1, annotations := [⟨0⟩] }

/-- Validity alone is not enough: a plain type that gets an id with an annotation is read as a decorated one. -/
theorem not_roundTrips_of_valid : ¬∀ (p : Program) (requests : List Request) (ids : List Id) (w : Workspace),
    p.validate = .ok () → p.Closed → p.TypesNumbered → p.ConstantsNumbered →
    (∀ request ∈ requests, request.Formed) → requests.mapM Request.run { program := p } = .ok ids w →
    w.RoundTrips (requests.zip ids) := by
  intro always
  let bool : Ty := .atom .bool []
  have ran := Change.eq_ok_of_answer (by decide +kernel :
    Change.answer? ([Request.type bool].mapM Request.run { program := literalTarget }) = some [1])
  have formed : ∀ request ∈ [Request.type bool], request.Formed :=
    List.forall_mem_singleton.mpr Decoration.settled_nil
  have trips := always literalTarget _ _ _ (by decide +kernel) (by decide) (by decide) (by decide) formed ran
  obtain ⟨t, w', read, -, id⟩ := trips.types bool 1 (List.mem_singleton_self _)
  have found : (Change.answer? (needTypes { program :=
      (Change.finalState ([Request.type bool].mapM Request.run { program := literalTarget })).program })).map
        (·.id bool) = some 0 := by decide +kernel
  rw [read] at found
  have zero : t.id bool = 0 := Option.some.inj found
  exact absurd (id.symm.trans zero) (by decide)

end Workspace

end BlockTally
