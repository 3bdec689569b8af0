import BlockTally.Proofs.Ty.Meaning

/-! Declarations that tell of a type.

A declaration tells of the type that it was written for or read as: it has the opcode of the type, and its operands are
ids of the components. Ids stand for the same types later on, apart from the null id, under which several types can be
declared.
-/

set_option autoImplicit false

namespace BlockTally.Ty

variable {known known' : Value → Option Ty} {i : Instruction} {ty : Ty}

/-- The instruction states a type like the given one, with what stood under the null id at the time, if anything did. -/
def Told (known : Value → Option Ty) (i : Instruction) (ty : Ty) : Prop :=
  ∃ null ty', (null ≠ none → known (.int 0) ≠ none) ∧ States (Function.update known (.int 0) null) i ty' ∧
    ty'.key = ty.key

theorem States.told {ty' : Ty} (h : States known i ty') (same : ty'.key = ty.key) : Told known i ty :=
  ⟨known (.int 0), ty', id, by rwa [Function.update_eq_self], same⟩

theorem Told.mono (h : Told known i ty)
    (more : ∀ v component, v ≠ .int 0 → known v = some component → known' v = some component)
    (still : known (.int 0) ≠ none → known' (.int 0) ≠ none) : Told known' i ty := by
  obtain ⟨null, ty', before, states, same⟩ := h
  refine ⟨null, ty', still ∘ before, states.mono fun v component found => ?_, same⟩
  by_cases here : v = .int 0
  · rw [here, Function.update_self] at found ⊢
    exact found
  · rw [Function.update_of_ne here] at found ⊢
    exact more v component here found

theorem Told.congr {ty' : Ty} (h : Told known i ty) (same : ty.key = ty'.key) : Told known i ty' := by
  obtain ⟨null, stated, before, states, key⟩ := h
  exact ⟨null, stated, before, states, key.trans same⟩

/-- A component is named by an id that is known as it is, or by the null id with what stood under it. -/
theorem Refers.named {null : Option Ty} {operand : Operand} {component : Ty}
    (h : Refers (Function.update known (.int 0) null) operand component) :
    operand.value = .int 0 ∧ null ≠ none ∨ known operand.value = some component := by
  unfold Refers at h
  by_cases here : operand.value = .int 0
  · rw [here, Function.update_self] at h
    exact .inl ⟨here, by rw [h]; exact Option.some_ne_none component⟩
  · rw [Function.update_of_ne here] at h
    exact .inr h

theorem RefersAt.named {null : Option Ty} {place : Nat} {component : Ty}
    (h : RefersAt (Function.update known (.int 0) null) i place component) :
    ∃ v, i.value place = .ok v ∧ (v = .int 0 ∧ null ≠ none ∨ known v = some component) := by
  obtain ⟨v, value, found⟩ := h
  have refers : Refers (Function.update known (.int 0) null) (.ofId v) component := found
  exact ⟨v, value, refers.named⟩

/-! ### What is written -/

/-- An instruction that declares a type in this way, under whatever id, tells of the type. -/
def Tells (known : Value → Option Ty) (declaration : Opcode × List Operand) (ty : Ty) : Prop :=
  ∀ id, Told known { opcode := declaration.1, resultId := id, operands := declaration.2 } ty

theorem tells_atom {form : Atom} {ds : List Decoration} {declaration : Opcode × List Operand}
    (found : atomDeclaration? form = some declaration) : Tells known declaration (.atom form ds) := by
  intro id
  suffices states : States known _ (.atom form ds) from states.told rfl
  cases form with
  | named => cases found
  | void | bool =>
    obtain rfl := Option.some.inj found
    rfl
  | float width =>
    obtain rfl := Option.some.inj found
    exact ⟨rfl, rfl⟩
  | integer width signed =>
    obtain rfl := Option.some.inj found
    refine ⟨rfl, rfl, _, rfl, ?_⟩
    cases signed <;> rfl

theorem tells_wrap {form : Wrapper} {component : Ty} {ds : List Decoration} {id : Id}
    (inner : KnownAs known id component) : Tells known (wrapDeclaration id form) (.wrap form component ds) := by
  intro result
  obtain ⟨component', found, same⟩ := inner
  suffices states : States known _ (.wrap form.plain component' ds) from
    states.told (by simp only [key, form.plain_plain, same])
  have refers {i : Instruction} {place : Nat} (named : i.value place = .ok (.int id)) :
      RefersAt known i place component' := ⟨_, named, found⟩
  cases form with
  | vector | matrix | array => exact ⟨rfl, refers rfl, rfl⟩
  | runtimeArray => exact ⟨rfl, refers rfl⟩
  | pointer => exact ⟨rfl, rfl, refers rfl⟩

theorem refers_components {ids : List Id} {tys : List Ty} (components : List.Forall₂ (KnownAs known) ids tys) :
    ∃ tys', List.Forall₂ (Refers known) (componentOperands ids) tys' ∧ keys tys' = keys tys := by
  obtain ⟨tys', read, same⟩ :=
    readComponents_known (i := { opcode := .typeStruct, operands := componentOperands ids }) components rfl
  exact ⟨tys', readComponents_ok read, same⟩

theorem tells_struct {members : List Ty} {mds ds : List Decoration} {ids : List Id}
    (components : List.Forall₂ (KnownAs known) ids members) :
    Tells known (.typeStruct, componentOperands ids) (.struct members mds ds) := by
  intro id
  obtain ⟨members', refers, same⟩ := refers_components components
  have states : States known { opcode := .typeStruct, resultId := id, operands := componentOperands ids }
      (.struct members' mds ds) := ⟨rfl, refers⟩
  exact states.told (by rw [key, key, same])

theorem tells_function {result : Ty} {parameters : List Ty} {ds : List Decoration} {ids : List Id}
    (components : List.Forall₂ (KnownAs known) ids (result :: parameters)) :
    Tells known (.typeFunction, componentOperands ids) (.function result parameters ds) := by
  intro id
  obtain ⟨tys, refers, same⟩ := refers_components components
  cases tys with
  | nil => cases same
  | cons result' parameters' =>
    obtain ⟨first, others⟩ := List.cons.inj same
    have states : States known { opcode := .typeFunction, resultId := id, operands := componentOperands ids }
        (.function result' parameters' ds) := ⟨rfl, refers⟩
    exact states.told (by rw [key, key, first, others])

end BlockTally.Ty
