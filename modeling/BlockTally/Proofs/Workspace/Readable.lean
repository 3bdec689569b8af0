import BlockTally.Proofs.Exhaustion
import BlockTally.Proofs.Ty.Spelling
import BlockTally.Proofs.Workspace.Reading

/-! When the types of a module can be read.

A declaration can be read if it has the operands that its opcode needs, and the storage class in it, if there is one,
is a number or a numeral. Decorations can be sorted if all of their values are integers.
-/

set_option autoImplicit false

namespace BlockTally

def Opcode.operandsNeeded (opcode : Opcode) : Nat :=
  if opcode ∈ [typeInt, typeVector, typeMatrix, typeArray, typePointer] then 2
  else if opcode ∈ [typeFloat, typeRuntimeArray, typeFunction] then 1
  else 0

def Instruction.HasOperands (i : Instruction) : Prop :=
  i.opcode.operandsNeeded ≤ i.operands.length

instance (i : Instruction) : Decidable i.HasOperands :=
  inferInstanceAs (Decidable (_ ≤ _))

def Instruction.StorageNumbered (i : Instruction) : Prop :=
  i.opcode = .typePointer → ∀ v, i.value 0 = .ok v → ∃ number, v.number? = some number

namespace Ty

variable {known : Value → Option Ty} {i : Instruction}

/-- A reading that succeeds, with a storage class that passes. -/
def Reads (result : Except Error (Option Ty)) : Prop :=
  ∃ ty?, result = .ok ty? ∧ ∀ ty, ty? = some ty → ty.checkStorage = .ok ()

theorem reads_none : Reads (.ok none) :=
  ⟨none, rfl, nofun⟩

theorem reads_some {ty : Ty} (passes : ty.checkStorage = .ok ()) : Reads (.ok (some ty)) :=
  ⟨some ty, rfl, fun _ same => Option.some.inj same ▸ passes⟩

theorem reads_wrap {place : Nat} {form : Wrapper} {forms : Except Error Wrapper}
    (inside : place < i.operands.length) (formed : forms = .ok form) (storage : form.Formed) :
    Reads (readWrap known i place forms) := by
  obtain ⟨v, operand⟩ := Instruction.value_isOk inside
  cases found : known v with
  | none =>
    rw [readWrap_unknown operand found]
    exact reads_none
  | some component =>
    rw [formed, readWrap_known operand found]
    refine reads_some ?_
    cases form with
    | pointer storage' =>
      obtain ⟨number, denotes⟩ := storage
      simp only [checkStorage, Value.number, present, denotes]
      rfl
    | vector | matrix | array | runtimeArray => rfl

/-- A declaration that lacks nothing is read. -/
theorem reads_declaration (h : i.HasOperands) (storage : i.StorageNumbered) : Reads (read? known i) := by
  have two (opcode : i.opcode ∈ [Opcode.typeInt, .typeVector, .typeMatrix, .typeArray, .typePointer]) :
      1 < i.operands.length := by
    unfold Instruction.HasOperands Opcode.operandsNeeded at h
    rwa [if_pos opcode] at h
  have one (opcode : i.opcode ∈ [Opcode.typeFloat, .typeRuntimeArray, .typeFunction]) : 0 < i.operands.length := by
    unfold Instruction.HasOperands Opcode.operandsNeeded at h
    split at h
    · exact Nat.zero_lt_of_lt h
    · exact h
  have counted (opcode : i.opcode ∈ [Opcode.typeVector, .typeMatrix, .typeArray]) (form : Value → Wrapper)
      (formed : ∀ v, (form v).Formed) : Reads (readWrap known i 0 (form <$> i.value 1)) := by
    have inside : 1 < i.operands.length := two (by simp only [List.mem_cons] at opcode ⊢; tauto)
    obtain ⟨v, found⟩ := Instruction.value_isOk inside
    exact reads_wrap (Nat.zero_lt_of_lt inside) (by rw [found]; rfl) (formed v)
  unfold read?
  -- One case for each opcode, in the order in which they are tried.
  refine iteInduction (fun _ => reads_some rfl) fun _ => iteInduction (fun _ => reads_some rfl) fun _ =>
    iteInduction ?integer fun _ => iteInduction ?float fun _ => iteInduction ?vector fun _ =>
    iteInduction ?matrix fun _ => iteInduction ?array fun _ => iteInduction ?runtimeArray fun _ =>
    iteInduction ?pointer fun _ => iteInduction ?struct fun _ => iteInduction ?function fun _ => reads_none
  case integer =>
    intro opcode
    have inside := two (by simp [opcode])
    obtain ⟨width, found⟩ := Instruction.value_isOk (Nat.zero_lt_of_lt inside)
    obtain ⟨signed, found'⟩ := Instruction.value_isOk inside
    rw [found, found']
    exact reads_some rfl
  case float =>
    intro opcode
    obtain ⟨width, found⟩ := Instruction.value_isOk (one (by simp [opcode]))
    rw [found]
    exact reads_some rfl
  case vector => exact fun opcode => counted (by simp [opcode]) .vector fun _ => True.intro
  case matrix => exact fun opcode => counted (by simp [opcode]) .matrix fun _ => True.intro
  case array => exact fun opcode => counted (by simp [opcode]) .array fun _ => True.intro
  case runtimeArray => exact fun opcode => reads_wrap (one (by simp [opcode])) rfl True.intro
  case pointer =>
    intro opcode
    have inside := two (by simp [opcode])
    obtain ⟨v, found⟩ := Instruction.value_isOk (Nat.zero_lt_of_lt inside)
    have formed : (Wrapper.pointer v).Formed := storage opcode v found
    exact reads_wrap inside (by rw [found]; rfl) formed
  case struct =>
    intro _
    cases readComponents known i with
    | none => exact reads_none
    | some members => exact reads_some rfl
  case function =>
    intro opcode
    cases components : readComponents known i with
    | none => exact reads_none
    | some tys =>
      cases tys with
      | cons result parameters => exact reads_some rfl
      -- There is an operand, so there is the type of a result.
      | nil =>
        obtain ⟨first, rest, operands⟩ := List.exists_cons_of_length_pos (one (by simp [opcode]))
        rw [readComponents, operands, List.mapM_cons] at components
        obtain ⟨ty, -, components⟩ := Option.bind_eq_some_iff.mp components
        obtain ⟨tys, -, ⟨⟩⟩ := Option.bind_eq_some_iff.mp components

theorem ofInstruction_isOk (h : i.HasOperands) (storage : i.StorageNumbered) :
    ∃ ty, ofInstruction known i = .ok ty ∧ ty.checkStorage = .ok () := by
  have reads : Reads (read? known i) := reads_declaration h storage
  obtain ⟨ty?, read, passes⟩ := reads
  refine ⟨_, except_bind_ok_iff.mpr ⟨ty?, read, rfl⟩, ?_⟩
  cases ty? with
  | none => rfl
  | some ty => exact passes ty rfl

/-- Decorations of integers can be given to any type, and leave the storage class alone. -/
theorem decorated_isOk (ty : Ty) {own members : List Decoration}
    (integers : ∀ d ∈ own ++ members, ∀ v ∈ d, ∃ number : Int, v = .int number) :
    ∃ ty', ty.decorated own members = .ok ty' ∧ ty'.checkStorage = ty.checkStorage := by
  have first := Decoration.sort_of_integers fun d member => integers d (List.mem_append_left _ member)
  have second := Decoration.sort_of_integers fun d member => integers d (List.mem_append_right _ member)
  unfold decorated
  rw [first]
  cases ty with
  | struct =>
    rw [second]
    exact ⟨_, rfl, rfl⟩
  | wrap form => cases form <;> exact ⟨_, rfl, rfl⟩
  | atom | function => exact ⟨_, rfl, rfl⟩

end Ty

namespace Program

variable {p : Program}

/-- Nothing is missing in what is read for the types of the module, and decorations have an order. -/
structure TypesReadable (p : Program) : Prop where
  operands : ∀ r ∈ p.declarations, (p.inst r).HasOperands
  decorations : ∀ r ∈ p.module.annotations, (p.inst r).annotates = true → ∀ v ∈ (p.inst r).valuesFrom 1,
    ∃ number : Int, v = .int number

/-- The decorations that are found are those of annotations. -/
theorem TypesReadable.integers (h : p.TypesReadable) {a : Annotations} (read : Annotations.ofProgram p = .ok a)
    (target : Value) :
    ∀ d ∈ (Annotations.ofType p a target).1 ++ (Annotations.ofType p a target).2, ∀ v ∈ d,
      ∃ number : Int, v = .int number := by
  intro d member
  simp only [Annotations.ofType_eq read, Annotations.valuesOn, List.mem_append, List.mem_map, List.mem_filter,
    Annotations.mem_on read] at member
  obtain ⟨r, ⟨⟨among, target⟩, opcode⟩, rfl⟩ | ⟨r, ⟨⟨among, target⟩, opcode⟩, rfl⟩ := member
  all_goals
    refine h.decorations r among ?_
    have annotates := of_decide_eq_true opcode
    simp [Instruction.annotates, annotates]

theorem TypesReadable.typeTable_isOk (h : p.TypesReadable) (storage : ∀ r ∈ p.declarations, (p.inst r).StorageNumbered)
    (annotated : ∃ a, Annotations.ofProgram p = .ok a) : ∃ t, p.typeTable = .ok t := by
  obtain ⟨a, read⟩ := annotated
  rw [typeTable_of_annotations read]
  refine except_foldlM_isOk _ fun r member t => ?_
  obtain ⟨plain, declared, passes⟩ := Ty.ofInstruction_isOk (h.operands r member) (storage r member)
  obtain ⟨ty, decorated, same⟩ := Ty.decorated_isOk plain (h.integers read (.int (p.inst r).resultId))
  exact ⟨_, TypeTable.read_ok_iff.mpr ⟨plain, declared, ty, decorated, same.trans passes, rfl⟩⟩

end Program

end BlockTally
