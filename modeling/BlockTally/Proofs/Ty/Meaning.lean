import BlockTally.Proofs.Workspace.Reflection

/-! What the declaration of a type states.

A declaration that is read as a type has the opcode of the type, and its operands are the parts of it. Decorations have
no share in that, nor has the spelling of storage classes.
-/

set_option autoImplicit false

namespace BlockTally.Ty

def Refers (known : Value → Option Ty) (operand : Operand) (component : Ty) : Prop :=
  known operand.value = some component

def RefersAt (known : Value → Option Ty) (i : Instruction) (place : Nat) (component : Ty) : Prop :=
  ∃ v, i.value place = .ok v ∧ known v = some component

def States (known : Value → Option Ty) (i : Instruction) : Ty → Prop
  | .atom .void _ => i.opcode = .typeVoid
  | .atom .bool _ => i.opcode = .typeBool
  | .atom (.integer width signed) _ =>
      i.opcode = .typeInt ∧ i.value 0 = .ok width ∧ ∃ flag, i.value 1 = .ok flag ∧ flag.isSet = signed
  | .atom (.float width) _ => i.opcode = .typeFloat ∧ i.value 0 = .ok width
  | .atom (.named opcode id) _ => i.opcode = opcode ∧ i.resultId = id
  | .wrap (.vector count) component _ =>
      i.opcode = .typeVector ∧ RefersAt known i 0 component ∧ i.value 1 = .ok count
  | .wrap (.matrix count) component _ =>
      i.opcode = .typeMatrix ∧ RefersAt known i 0 component ∧ i.value 1 = .ok count
  | .wrap (.array length) component _ =>
      i.opcode = .typeArray ∧ RefersAt known i 0 component ∧ i.value 1 = .ok length
  | .wrap .runtimeArray component _ => i.opcode = .typeRuntimeArray ∧ RefersAt known i 0 component
  | .wrap (.pointer storage) component _ =>
      i.opcode = .typePointer ∧ i.value 0 = .ok storage ∧ RefersAt known i 1 component
  | .struct members _ _ => i.opcode = .typeStruct ∧ List.Forall₂ (Refers known) i.operands members
  | .function result parameters _ =>
      i.opcode = .typeFunction ∧ List.Forall₂ (Refers known) i.operands (result :: parameters)

variable {known : Value → Option Ty} {i : Instruction} {ty : Ty}

theorem readWrap_ok {place : Nat} {forms : Except Error Wrapper} (read : readWrap known i place forms = .ok (some ty)) :
    ∃ form component, forms = .ok form ∧ RefersAt known i place component ∧ ty = .wrap form component [] := by
  obtain ⟨v, value, rest⟩ := except_bind_ok_iff.mp read
  cases found : known v with
  | none =>
    rw [found] at rest
    cases rest
  | some component =>
    rw [found] at rest
    obtain ⟨form, formed, last⟩ := except_bind_ok_iff.mp rest
    exact ⟨form, component, formed, ⟨v, value, found⟩, (Option.some.inj (Except.ok.inj last)).symm⟩

theorem value_of_map {α : Type} {f : Value → α} {result : Except Error Value} {a : α} (mapped : f <$> result = .ok a) :
    ∃ v, result = .ok v ∧ f v = a := by
  cases result with
  | error e => cases mapped
  | ok v => exact ⟨v, rfl, Except.ok.inj mapped⟩

/-- What is found for each entry of a list. -/
theorem forall₂_of_mapM {α β : Type} {f : α → Option β} {entries : List α} {answers : List β}
    (found : entries.mapM f = some answers) : List.Forall₂ (fun a b => f a = some b) entries answers := by
  induction entries generalizing answers with
  | nil =>
    obtain rfl := Option.some.inj found
    exact .nil
  | cons a rest ih =>
    rw [List.mapM_cons] at found
    obtain ⟨first, here, later⟩ := Option.bind_eq_some_iff.mp found
    obtain ⟨others, there, last⟩ := Option.bind_eq_some_iff.mp later
    obtain rfl := Option.some.inj last
    exact .cons here (ih there)

theorem exists_mapM {α β : Type} {f : α → Option β} {entries : List α} (known : ∀ a ∈ entries, ∃ b, f a = some b) :
    ∃ answers, entries.mapM f = some answers := by
  induction entries with
  | nil => exact ⟨[], rfl⟩
  | cons a rest ih =>
    rw [List.forall_mem_cons] at known
    obtain ⟨b, first⟩ := known.1
    obtain ⟨answers, others⟩ := ih known.2
    exact ⟨b :: answers, by rw [List.mapM_cons, first, others]; rfl⟩

theorem readComponents_ok {tys : List Ty} (read : readComponents known i = some tys) :
    List.Forall₂ (Refers known) i.operands tys :=
  forall₂_of_mapM read

def StatesAll (known : Value → Option Ty) (i : Instruction) (result : Except Error (Option Ty)) : Prop :=
  ∀ ty, result = .ok (some ty) → States known i ty

theorem statesAll_some (stated : States known i ty) : StatesAll known i (.ok (some ty)) := by
  intro ty' same
  obtain rfl := Option.some.inj (Except.ok.inj same)
  exact stated

theorem statesAll_wrap {place : Nat} {forms : Except Error Wrapper}
    (stated : ∀ form component, forms = .ok form → RefersAt known i place component →
      States known i (.wrap form component [])) : StatesAll known i (readWrap known i place forms) := by
  intro ty read
  obtain ⟨form, component, formed, refers, rfl⟩ := readWrap_ok read
  exact stated form component formed refers

/-- A declaration states what it is read as. -/
theorem states_of_read : StatesAll known i (read? known i) := by
  unfold read?
  -- One case for each opcode, in the order in which they are tried.
  refine iteInduction ?void fun _ => iteInduction ?bool fun _ => iteInduction ?integer fun _ =>
    iteInduction ?float fun _ => iteInduction ?vector fun _ => iteInduction ?matrix fun _ =>
    iteInduction ?array fun _ => iteInduction ?runtimeArray fun _ => iteInduction ?pointer fun _ =>
    iteInduction ?struct fun _ => iteInduction ?function fun _ => nofun
  case void | bool => exact fun opcode => statesAll_some opcode
  case integer =>
    intro opcode ty read
    obtain ⟨width, first, rest⟩ := except_bind_ok_iff.mp read
    obtain ⟨flag, second, last⟩ := except_bind_ok_iff.mp rest
    cases last
    exact ⟨opcode, first, flag, second, rfl⟩
  case float =>
    intro opcode ty read
    obtain ⟨width, first, last⟩ := except_bind_ok_iff.mp read
    cases last
    exact ⟨opcode, first⟩
  case vector | matrix | array =>
    refine fun opcode => statesAll_wrap fun form component formed refers => ?_
    obtain ⟨v, value, rfl⟩ := value_of_map formed
    exact ⟨opcode, refers, value⟩
  case runtimeArray =>
    refine fun opcode => statesAll_wrap fun form component formed refers => ?_
    obtain rfl := Except.ok.inj formed
    exact ⟨opcode, refers⟩
  case pointer =>
    refine fun opcode => statesAll_wrap fun form component formed refers => ?_
    obtain ⟨storage, value, rfl⟩ := value_of_map formed
    exact ⟨opcode, value, refers⟩
  case struct =>
    intro opcode ty read
    obtain ⟨members, components, rfl⟩ := Option.map_eq_some_iff.mp (Except.ok.inj read)
    exact ⟨opcode, readComponents_ok components⟩
  case function =>
    intro opcode ty read
    split at read
    · cases read
    · cases read
    next result parameters components =>
      cases read
      exact ⟨opcode, readComponents_ok components⟩

theorem states_of_ofInstruction (read : ofInstruction known i = .ok ty) : States known i ty := by
  obtain ⟨ty?, found, last⟩ := except_bind_ok_iff.mp read
  obtain rfl := Except.ok.inj last
  cases ty? with
  | none => exact ⟨rfl, rfl⟩
  | some ty => exact states_of_read ty found

/-- Decorations do not change what a declaration states. -/
theorem States.decorated {ty' : Ty} {own members : List Decoration} (h : States known i ty)
    (decorated : ty.decorated own members = .ok ty') : States known i ty' := by
  obtain ⟨ds, -, rest⟩ := except_bind_ok_iff.mp decorated
  cases ty with
  | struct =>
    obtain ⟨mds, -, last⟩ := except_bind_ok_iff.mp rest
    obtain rfl := Except.ok.inj last
    exact h
  | atom form =>
    obtain rfl := Except.ok.inj rest
    cases form <;> exact h
  | wrap form =>
    obtain rfl := Except.ok.inj rest
    cases form <;> exact h
  | function =>
    obtain rfl := Except.ok.inj rest
    exact h

theorem States.mono {known' : Value → Option Ty} (h : States known i ty)
    (more : ∀ v component, known v = some component → known' v = some component) : States known' i ty := by
  have refersAt {place : Nat} {component : Ty} (refers : RefersAt known i place component) :
      RefersAt known' i place component := refers.imp fun v held => ⟨held.1, more v component held.2⟩
  have refers {tys : List Ty} (refers : List.Forall₂ (Refers known) i.operands tys) :
      List.Forall₂ (Refers known') i.operands tys := refers.imp fun operand component found => more _ _ found
  cases ty with
  | atom form => cases form <;> exact h
  | wrap form =>
    cases form with
    | vector | matrix | array => exact ⟨h.1, refersAt h.2.1, h.2.2⟩
    | runtimeArray => exact ⟨h.1, refersAt h.2⟩
    | pointer => exact ⟨h.1, h.2.1, refersAt h.2.2⟩
  | struct | function => exact ⟨h.1, refers h.2⟩

/-- An instruction that describes a type declares one like it, with parts that are known. -/
theorem Describes.states (h : Describes known i ty) : ∃ ty', States known i ty' ∧ ty'.key = ty.key := by
  obtain ⟨seen, more, plain, read, own, members, ty', decorated, same⟩ := h
  exact ⟨ty', ((states_of_ofInstruction read).decorated decorated).mono more, same⟩

end BlockTally.Ty
