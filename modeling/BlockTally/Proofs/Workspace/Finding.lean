import BlockTally.Proofs.Ty.Decorating
import BlockTally.Proofs.Ty.Meaning
import BlockTally.Proofs.Workspace.RoundTrip
import BlockTally.Proofs.Workspace.Staleness

/-! Declared types that are asked for by what they are made of.

The type of a declaration can be made again from its form without decorations, which are then given to it one by
one. It is the type that was read, and so it is found, unless an annotation is repeated. A reading keeps the repetition,
which the type that was made does not have; then a request for it declares it once more.
-/

set_option autoImplicit false

namespace BlockTally

/-- What a declaration states has no share in decorations. -/
theorem Ty.States.bare {known : Value → Option Ty} {i : Instruction} {ty : Ty} (h : States known i ty) :
    States known i ty.bare := by
  cases ty with
  | atom form => cases form <;> exact h
  | wrap form => cases form <;> exact h
  | struct | function => exact h

namespace Program

variable {p : Program} {t : TypeTable}

/-- Under its id, the table knows the declaration as the type that it states, with the decorations of the id. -/
def ReadIn (p : Program) (t : TypeTable) (r : InstRef) (ty : Ty) : Prop :=
  t.type? (.int (p.inst r).resultId) = some ty ∧ Ty.States t.type? (p.inst r) ty ∧ ∃ plain : Ty,
    plain.decorated (p.noteValues (.int (p.inst r).resultId) .decorate)
      (p.noteValues (.int (p.inst r).resultId) .memberDecorate) = .ok ty

theorem readIn_of_typeTable (distinct : (p.idsOf p.declarations).Nodup) (numbered : p.TypesNumbered)
    (read : p.typeTable = .ok t) : ∀ r ∈ p.declarations, ∃ ty, p.ReadIn t r ty := by
  refine typeTable_induction (fun done t => ∀ r ∈ done, ∃ ty, p.ReadIn t r ty) distinct read nofun
    fun done r rest t ty split held fresh ⟨a, plain, annotated, declared, decorated⟩ => ?_
  have new := fresh (numbered r (by simp [split]))
  have later := (TypeTable.Extends.register new : t.Extends ty.size (t.register (p.inst r).resultId ty)).types
  refine List.forall_mem_append.mpr ⟨fun s member => ?_, List.forall_mem_singleton.mpr ⟨ty, ?_⟩⟩
  · obtain ⟨ty', found, states, decorated'⟩ := held s member
    exact ⟨ty', later _ _ found, states.mono later, decorated'⟩
  · have states := ((Ty.states_of_ofInstruction declared).decorated decorated).mono later
    rw [Annotations.ofType_eq annotated, Annotations.valuesOn_ofProgram annotated,
      Annotations.valuesOn_ofProgram annotated] at decorated
    exact ⟨by rw [TypeTable.type?_register, if_pos rfl], states, plain, decorated⟩

theorem id_ne_zero_of_typeTable (distinct : (p.idsOf p.declarations).Nodup) (numbered : p.TypesNumbered)
    (read : p.typeTable = .ok t) {v : Value} {ty : Ty} (found : t.type? v = some ty) : t.id ty ≠ 0 := by
  obtain ⟨entry, among⟩ := Option.ne_none_iff_exists'.mp (found_of_typeTable distinct read v ty found)
  have same : t.id ty = entry.id := by
    rw [TypeTable.id, among]
    rfl
  exact same ▸ numbered_of_typeTable distinct numbered read _ _ among

/-- A fresh reading hands out an id exactly for the types that are like a declared one. -/
theorem id_eq_zero_iff (distinct : (p.idsOf p.declarations).Nodup) (numbered : p.TypesNumbered)
    (read : p.typeTable = .ok t) {ty : Ty} : t.id ty = 0 ↔ ∀ v other, t.type? v = some other → other.key ≠ ty.key := by
  constructor
  · intro unknown v other found same
    have handed := id_ne_zero_of_typeTable distinct numbered read found
    rw [TypeTable.id, same] at handed
    exact handed unknown
  · intro differ
    by_contra handed
    obtain ⟨-, other, found, same⟩ := (sound_of_typeTable distinct read).of_id handed
    exact differ _ other found same

structure Redecorates (p : Program) (r : InstRef) (ty : Ty) (steps : List Ty.Step) : Prop where
  own : ∀ d, d ∈ steps.filterMap Ty.Step.own? ↔ d ∈ p.noteValues (.int (p.inst r).resultId) .decorate
  members : ∀ d, d ∈ steps.filterMap Ty.Step.member? ↔
    ty.hasMembers = true ∧ d ∈ p.noteValues (.int (p.inst r).resultId) .memberDecorate

/-- Annotations that hold integers, among them the number of the decoration, can be made into steps. -/
theorem exists_redecorates {r : InstRef} {ty : Ty}
    (own : ∀ d ∈ p.noteValues (.int (p.inst r).resultId) .decorate,
      ∃ (number : Int) (values : List Int), d = .int number :: values.map .int)
    (members : ty.hasMembers = true → ∀ d ∈ p.noteValues (.int (p.inst r).resultId) .memberDecorate,
      ∃ (place number : Int) (values : List Int), d = .int place :: .int number :: values.map .int) :
    ∃ steps, p.Redecorates r ty steps := by
  have own' : ∀ d ∈ p.noteValues (.int (p.inst r).resultId) .decorate, ∃ step : Ty.Step, step.own? = some d := by
    intro d listed
    obtain ⟨number, values, rfl⟩ := own d listed
    exact ⟨.own number values, rfl⟩
  cases kind : ty.hasMembers with
  | true =>
    have members' : ∀ d ∈ p.noteValues (.int (p.inst r).resultId) .memberDecorate,
        ∃ step : Ty.Step, step.member? = some d := by
      intro d listed
      obtain ⟨place, number, values, rfl⟩ := members kind d listed
      exact ⟨.member place number values, rfl⟩
    obtain ⟨steps, given, given'⟩ := Ty.Step.exists_steps own' members'
    exact ⟨steps, fun d => by rw [given], fun d => by rw [given', kind, eq_self, true_and]⟩
  -- A type without members is given its own decorations only.
  | false =>
    have unlisted : ∀ d ∈ ([] : List Decoration), ∃ step : Ty.Step, step.member? = some d := nofun
    obtain ⟨steps, given, given'⟩ := Ty.Step.exists_steps own' unlisted
    refine ⟨steps, fun d => by rw [given], fun d => iff_of_false ?_ fun both => ?_⟩
    · rw [given']
      exact List.not_mem_nil
    · exact Bool.false_ne_true (kind.symm.trans both.1)

def Unrepeated (p : Program) (r : InstRef) (ty : Ty) : Prop :=
  (p.noteValues (.int (p.inst r).resultId) .decorate).Nodup ∧
    (ty.hasMembers = true → (p.noteValues (.int (p.inst r).resultId) .memberDecorate).Nodup)

end Program

namespace Workspace

variable {w : Workspace} {t : TypeTable} {ty : Ty}

/-- A workspace with current facts looks types up as a fresh reading does. -/
theorem exists_needTypes (current : w.Current) (read : w.program.typeTable = .ok t) :
    ∃ t' w', needTypes w = .ok t' w' ∧ t'.Agrees t ∧ w'.program = w.program ∧ w'.facts.types = some t' := by
  obtain ⟨t', w', looked, ⟨t'', read', agrees⟩, -, program, found, -⟩ :=
    exists_ok (.mono (after_needTypes current) (fun _ _ held => held) fun _ _ none => none t read)
  obtain rfl := Except.ok.inj (read.symm.trans read')
  exact ⟨t', w', looked, agrees, program, found⟩

theorem typeId_of_declared (current : w.Current) (read : w.program.typeTable = .ok t) (declared : t.id ty ≠ 0) :
    ∃ w', typeId ty w = .ok (t.id ty) w' ∧ w'.program = w.program := by
  obtain ⟨t', w', looked, agrees, program, found⟩ := exists_needTypes current read
  rw [typeId_congr_of_read looked (needTypes_of_found found)]
  rw [← agrees.id] at declared ⊢
  exact ⟨w', typeId_of_found found declared, program⟩

theorem then_typeId_undeclared (current : w.Current) (read : w.program.typeTable = .ok t) (undeclared : t.id ty = 0) :
    Then (typeId ty) w fun id _ => w.program.module.idBound ≤ id := by
  obtain ⟨t', w', looked, agrees, program, found⟩ := exists_needTypes current read
  have answer := then_typeId_new found ((agrees.id ty).trans undeclared)
  rw [program] at answer
  unfold Then Change.After
  rw [typeId_congr_of_read looked (needTypes_of_found found)]
  exact answer

/-- The type of a declaration that is decorated step by step, as its annotations say, is the type that was read unless
an annotation is repeated. A request for it is answered by a declaration if there is one of a type like it, and there is
if no annotation is repeated; otherwise the answer, if any, is a new id. -/
theorem found_of_redecorated {p : Program} {t : TypeTable} (numbered : p.TypesNumbered)
    (distinct : (p.declarations.map fun r => (p.inst r).resultId).Nodup) (read : p.typeTable = .ok t) :
    ∀ r ∈ p.declarations, ∃ ty, t.type? (.int (p.inst r).resultId) = some ty ∧
      Ty.States t.type? (p.inst r) ty.bare ∧
      ((∀ d ∈ p.noteValues (.int (p.inst r).resultId) .decorate,
          ∃ (number : Int) (values : List Int), d = .int number :: values.map .int) →
        (ty.hasMembers = true → ∀ d ∈ p.noteValues (.int (p.inst r).resultId) .memberDecorate,
          ∃ (place number : Int) (values : List Int), d = .int place :: .int number :: values.map .int) →
        ∃ steps, p.Redecorates r ty steps) ∧
      ∀ steps, p.Redecorates r ty steps → ∃ ty', ty.bare.withSteps steps = .ok ty' ∧
        (ty' = ty ↔ p.Unrepeated r ty) ∧ (ty'.key = ty.key ↔ p.Unrepeated r ty) ∧
        ∀ w : Workspace, w.program = p → w.Current →
          (p.Unrepeated r ty ∨ (∃ v other, t.type? v = some other ∧ other.key = ty'.key) →
            ∃ s ∈ p.declarations, ∃ w', typeId ty' w = .ok (p.inst s).resultId w' ∧ w'.program = p) ∧
          ((∀ v other, t.type? v = some other → other.key ≠ ty'.key) →
            Then (typeId ty') w fun id _ => p.module.idBound ≤ id) := by
  intro r member
  rw [← Program.idsOf_declarations numbered] at distinct
  obtain ⟨ty, found, states, plain, decorated⟩ := Program.readIn_of_typeTable distinct numbered read r member
  refine ⟨ty, found, states.bare, Program.exists_redecorates, fun steps gives => ?_⟩
  obtain ⟨ty', run, same, keys⟩ := Ty.withSteps_bare decorated gives.own gives.members
  refine ⟨ty', run, same, keys.trans same, ?_⟩
  rintro w rfl current
  refine ⟨fun like => ?_, fun unlike => ?_⟩
  · have declared : t.id ty' ≠ 0 := by
      rw [ne_eq, Program.id_eq_zero_iff distinct numbered read]
      intro unlike
      rcases like with once | ⟨v, other, known, same'⟩
      · exact unlike _ ty found (keys.mpr (same.mpr once)).symm
      · exact unlike v other known same'
    obtain ⟨w', answered, program⟩ := typeId_of_declared current read declared
    obtain ⟨s, among, result, -⟩ := Program.mem_idsOf.mp ((Program.sound_of_typeTable distinct read).of_id declared).1
    exact ⟨s, among, w', result ▸ answered, program⟩
  · exact then_typeId_undeclared current read ((Program.id_eq_zero_iff distinct numbered read).mpr unlike)

/-- A number, and a structure of two such numbers that is decorated along with its members. -/
def decoratedTypes : Program where
  instructions := ⟨#[
    ⟨{ opcode := .typeInt, resultId := 1, operands := [.literal (.int 32), .literal (.int 0)] }, none⟩,
    ⟨{ opcode := .typeStruct, resultId := 2, operands := [.ofId (.int 1), .ofId (.int 1)] }, none⟩,
    ⟨{ opcode := .memberDecorate, operands :=
      [.ofId (.int 2), .literal (.int 1), ⟨.decoration, .int 35⟩, .literal (.int 4)] }, none⟩,
    ⟨{ opcode := .decorate, operands := [.ofId (.int 2), ⟨.decoration, .int 2⟩] }, none⟩,
    ⟨{ opcode := .memberDecorate, operands :=
      [.ofId (.int 2), .literal (.int 0), ⟨.decoration, .int 35⟩, .literal (.int 0)] }, none⟩]⟩
  module := { idBound := 3, annotations := [⟨2⟩, ⟨3⟩, ⟨4⟩], typesValues := [⟨0⟩, ⟨1⟩] }

/-- The structure is decorated in another order than that of the annotations, and it is found. -/
theorem found_of_redecorated_sample :
    let steps : List Ty.Step := [.own 2 [], .member 0 35 [0], .member 1 35 [4]]
    ∃ ty', (Ty.struct [.uint 32, .uint 32] [] []).withSteps steps = .ok ty' ∧
      ∃ s ∈ decoratedTypes.declarations, ∃ w', typeId ty' { program := decoratedTypes } =
        .ok (decoratedTypes.inst s).resultId w' ∧ w'.program = decoratedTypes := by
  intro steps
  let full : Ty := .struct [.uint 32, .uint 32] [[.int 0, .int 35, .int 0], [.int 1, .int 35, .int 4]] [[.int 2]]
  have own : decoratedTypes.noteValues (.int 2) .decorate = [[.int 2]] := by decide
  have members : decoratedTypes.noteValues (.int 2) .memberDecorate =
    [[.int 1, .int 35, .int 4], [.int 0, .int 35, .int 0]] := by decide
  have gives : decoratedTypes.Redecorates ⟨1⟩ full steps := {
    own := fun d => iff_of_eq (congrArg (d ∈ ·) own.symm)
    members := fun d => by
      change d ∈ [[Value.int 0, .int 35, .int 0], [.int 1, .int 35, .int 4]] ↔
        true = true ∧ d ∈ decoratedTypes.noteValues (.int 2) .memberDecorate
      rw [members]
      simp only [List.mem_cons, List.not_mem_nil, or_false, true_and]
      exact or_comm }
  have once : decoratedTypes.Unrepeated ⟨1⟩ full := ⟨by decide, fun _ => by decide⟩
  have read : decoratedTypes.typeTable = .ok _ := rfl
  obtain ⟨ty, found, -, -, decorated⟩ :=
    found_of_redecorated (p := decoratedTypes) (by decide) (by decide) read ⟨1⟩ (by decide)
  have same : some full = some ty := found
  obtain rfl := Option.some.inj same
  obtain ⟨ty', run, -, -, requests⟩ := decorated steps gives
  exact ⟨ty', run, (requests _ rfl (current_forgotten _)).1 (.inl once)⟩

/-- A runtime array over a number, with its stride listed twice. -/
def repeatedStride : Program where
  instructions := ⟨#[
    ⟨{ opcode := .typeInt, resultId := 1, operands := [.literal (.int 32), .literal (.int 0)] }, none⟩,
    ⟨{ opcode := .typeRuntimeArray, resultId := 2, operands := [.ofId (.int 1)] }, none⟩,
    ⟨{ opcode := .decorate, operands := [.ofId (.int 2), ⟨.decoration, .int 6⟩, .literal (.int 4)] }, none⟩,
    ⟨{ opcode := .decorate, operands := [.ofId (.int 2), ⟨.decoration, .int 6⟩, .literal (.int 4)] }, none⟩]⟩
  module := { idBound := 3, annotations := [⟨2⟩, ⟨3⟩], typesValues := [⟨0⟩, ⟨1⟩] }

/-- The array that is decorated for each annotation is not the one that was read. It is not found, but declared again,
though the module is valid, its annotations hold integers and its types have ids of their own. -/
theorem not_found_of_repeated :
    let p := repeatedStride
    let steps : List Ty.Step := [.own 6 [4], .own 6 [4]]
    p.validate = .ok () ∧ p.TypesNumbered ∧ (p.declarations.map fun r => (p.inst r).resultId).Nodup ∧
    ∃ t ty ty', p.typeTable = .ok t ∧ t.type? (.int 2) = some ty ∧ p.Redecorates ⟨1⟩ ty steps ∧
      ty.bare.withSteps steps = .ok ty' ∧ ty' ≠ ty ∧
      Change.answer? (typeId ty' { program := p }) = some 3 ∧ ∀ r ∈ p.declarations, (p.inst r).resultId ≠ 3 := by
  intro p steps
  have noted : p.noteValues (.int 2) .decorate = [[.int 6, .int 4], [.int 6, .int 4]] := by decide
  have gives : p.Redecorates ⟨1⟩
      (.wrap .runtimeArray (.uint 32) [[.int 6, .int 4], [.int 6, .int 4]]) steps := {
    own := fun d => iff_of_eq (congrArg (d ∈ ·) noted.symm)
    members := fun d => iff_of_false List.not_mem_nil fun both => Bool.false_ne_true both.1 }
  exact ⟨by decide +kernel, by decide, by decide, _, _, .wrap .runtimeArray (.uint 32) [[.int 6, .int 4]], rfl, rfl,
    gives, rfl, by decide, by decide +kernel, by decide⟩

end Workspace

end BlockTally
