import BlockTally.Proofs.Checks
import BlockTally.Ty.Declaration
import BlockTally.Ty.Decorations
import Mathlib.Data.List.Forall2

/-! Declarations that read as the type they were written for.

A declaration names the components of its type by ids, and leaves the decorations to annotations. If the ids are
known as the components, and the annotations are those of the type, what is read is the type again, apart from the
spelling of storage classes. Types that are like one another differ in that spelling only.
-/

set_option autoImplicit false

namespace BlockTally

namespace Decoration

structure Settled (ds : List Decoration) : Prop where
  sorted : sorted ds = ds
  distinct : ds.Nodup
  integers : ∀ d ∈ ds, ∀ v ∈ d, ∃ number : Int, v = .int number

theorem comparable_of_integers {a b : Decoration} (first : ∀ v ∈ a, ∃ number : Int, v = .int number)
    (second : ∀ v ∈ b, ∃ number : Int, v = .int number) : comparable a b = true := by
  induction a generalizing b with
  | nil => rfl
  | cons v rest ih =>
    cases b with
    | nil => rfl
    | cons v' rest' =>
      rw [List.forall_mem_cons] at first second
      rw [comparable]
      split
      · exact ih first.2 second.2
      · obtain ⟨number, rfl⟩ := first.1
        obtain ⟨number', rfl⟩ := second.1
        rfl

theorem allComparable_of_integers {ds : List Decoration}
    (integers : ∀ d ∈ ds, ∀ v ∈ d, ∃ number : Int, v = .int number) : allComparable ds = true := by
  simp only [allComparable, List.all_eq_true]
  exact fun a first b second => comparable_of_integers (integers a first) (integers b second)

/-- Decorations of integers can be sorted. -/
theorem sort_of_integers {ds : List Decoration} (integers : ∀ d ∈ ds, ∀ v ∈ d, ∃ number : Int, v = .int number) :
    sort ds = .ok (sorted ds) :=
  if_pos (allComparable_of_integers integers)

theorem Settled.sort {ds : List Decoration} (h : Settled ds) : sort ds = .ok ds := by
  rw [sort_of_integers h.integers, h.sorted]

theorem settled_nil : Settled [] :=
  ⟨rfl, List.nodup_nil, nofun⟩

end Decoration

def Wrapper.Formed : Wrapper → Prop
  | .pointer storage => ∃ number, storage.number? = some number
  | _ => True

theorem Value.number?_plain (value : Value) : value.plain.number? = value.number? := by
  unfold plain
  split
  next number found => exact found.symm
  · rfl

theorem Wrapper.formed_plain (form : Wrapper) : form.plain.Formed ↔ form.Formed := by
  cases form with
  | pointer storage => simp only [plain, Formed, storage.number?_plain]
  | vector | matrix | array | runtimeArray => rfl

namespace Ty

mutual

def Formed : Ty → Prop
  | .atom _ ds => Decoration.Settled ds
  | .wrap form component ds => form.Formed ∧ Formed component ∧ Decoration.Settled ds
  | .struct members mds ds => AllFormed members ∧ Decoration.Settled mds ∧ Decoration.Settled ds
  | .function result parameters ds => Formed result ∧ AllFormed parameters ∧ Decoration.Settled ds

def AllFormed : List Ty → Prop
  | [] => True
  | ty :: rest => Formed ty ∧ AllFormed rest

end

theorem Formed.settled {ty : Ty} (h : ty.Formed) : Decoration.Settled ty.decorations := by
  cases ty with
  | atom => exact h
  | wrap | struct | function => exact h.2.2

theorem Formed.settled_members {ty : Ty} (h : ty.Formed) : Decoration.Settled ty.memberDecorations := by
  cases ty with
  | struct => exact h.2.1
  | atom | wrap | function => exact Decoration.settled_nil

/-- An instruction that declares a type in this way, under whatever id, is read as the type, if it is annotated with
the decorations of the type. -/
structure Spells (known : Value → Option Ty) (declaration : Opcode × List Operand) (ty : Ty) : Prop where
  declares : declaration.1.declaresType = true
  reads : ∀ id, ∃ plain,
    ofInstruction known { opcode := declaration.1, resultId := id, operands := declaration.2 } = .ok plain ∧
      ∃ ty', plain.decorated ty.decorations ty.memberDecorations = .ok ty' ∧ ty'.checkStorage = .ok () ∧
        ty'.key = ty.key

variable {known : Value → Option Ty}

theorem ofInstruction_of_read {i : Instruction} {ty : Ty} (read : read? known i = .ok (some ty)) :
    ofInstruction known i = .ok ty := by
  unfold ofInstruction
  rw [read]
  rfl

theorem spells_atom {form : Atom} {ds : List Decoration} {declaration : Opcode × List Operand}
    (settled : Decoration.Settled ds) (found : atomDeclaration? form = some declaration) :
    Spells known declaration (.atom form ds) := by
  have decorated (form : Atom) : (Ty.atom form []).decorated ds [] = .ok (.atom form ds) := by
    simp only [Ty.decorated, settled.sort]
    rfl
  cases form with
  | named => cases found
  | void | bool | float =>
    obtain rfl := Option.some.inj found
    exact ⟨rfl, fun id => ⟨_, rfl, _, decorated _, rfl, rfl⟩⟩
  | integer width signed =>
    obtain rfl := Option.some.inj found
    refine ⟨rfl, fun id => ⟨_, rfl, _, decorated _, rfl, ?_⟩⟩
    cases signed <;> rfl

/-! ### Components -/

/-- The id is known as a type like the given one. -/
def KnownAs (known : Value → Option Ty) (id : Id) (ty : Ty) : Prop :=
  ∃ ty', known (.int id) = some ty' ∧ ty'.key = ty.key

theorem readWrap_known {i : Instruction} {place : Nat} {v : Value} {component : Ty} {form : Wrapper}
    (operand : i.value place = .ok v) (found : known v = some component) :
    readWrap known i place (.ok form) = .ok (some (.wrap form component [])) := by
  simp only [readWrap, operand, found, bind, Except.bind]
  rfl

theorem readWrap_unknown {i : Instruction} {place : Nat} {v : Value} {form : Except Error Wrapper}
    (operand : i.value place = .ok v) (unknown : known v = none) : readWrap known i place form = .ok none := by
  simp only [readWrap, operand, unknown, bind, Except.bind]
  rfl

theorem spells_wrap {form : Wrapper} {component : Ty} {ds : List Decoration} {id : Id} (formed : form.Formed)
    (settled : Decoration.Settled ds) (inner : KnownAs known id component) :
    Spells known (wrapDeclaration id form) (.wrap form component ds) := by
  obtain ⟨component', found, key'⟩ := inner
  have decorated (form : Wrapper) : (Ty.wrap form component' []).decorated ds [] = .ok (.wrap form component' ds) := by
    simp only [Ty.decorated, settled.sort]
    rfl
  have same : (Ty.wrap form.plain component' ds).key = (Ty.wrap form component ds).key := by
    simp only [key, form.plain_plain, key']
  cases form with
  | array | vector | matrix | runtimeArray =>
    exact ⟨rfl, fun id' => ⟨_, ofInstruction_of_read (readWrap_known rfl found), _, decorated _, rfl, same⟩⟩
  | pointer storage =>
    obtain ⟨number, storage'⟩ := formed
    have plain : storage.plain = .int number := by simp only [Value.plain, storage']
    refine ⟨rfl, fun id' => ⟨_, ofInstruction_of_read (readWrap_known rfl found), _, decorated _, ?_, same⟩⟩
    rw [plain]
    rfl

theorem readComponents_known {tys : List Ty} {ids : List Id} {i : Instruction}
    (components : List.Forall₂ (KnownAs known) ids tys) (operands : i.operands = componentOperands ids) :
    ∃ tys', readComponents known i = some tys' ∧ keys tys' = keys tys := by
  unfold readComponents
  rw [operands]
  clear operands
  induction components with
  | nil => exact ⟨[], rfl, rfl⟩
  | @cons id ty ids tys first _ ih =>
    obtain ⟨ty', found, same⟩ := first
    obtain ⟨tys', others, same'⟩ := ih
    refine ⟨ty' :: tys', ?_, by rw [keys, keys, same, same']⟩
    simp only [componentOperands, Operand.ofId, List.map_cons, List.mapM_cons, found] at others ⊢
    rw [others]
    rfl

theorem spells_struct {members : List Ty} {mds ds : List Decoration} {ids : List Id}
    (settled : Decoration.Settled ds) (settled' : Decoration.Settled mds)
    (components : List.Forall₂ (KnownAs known) ids members) :
    Spells known (.typeStruct, componentOperands ids) (.struct members mds ds) := by
  refine ⟨rfl, fun id => ?_⟩
  obtain ⟨tys, read, same⟩ := readComponents_known (i :=
    { opcode := .typeStruct, resultId := id, operands := componentOperands ids }) components rfl
  refine ⟨.struct tys [] [], ofInstruction_of_read ?_, .struct tys mds ds, ?_, rfl, by rw [key, key, same]⟩
  · change Except.ok ((readComponents known _).map _) = _
    rw [read]
    rfl
  · simp only [Ty.decorated, settled.sort, settled'.sort, decorations, memberDecorations]
    rfl

theorem read?_function {i : Instruction} {result : Ty} {parameters : List Ty} (opcode : i.opcode = .typeFunction)
    (components : readComponents known i = some (result :: parameters)) :
    read? known i = .ok (some (.function result parameters [])) := by
  unfold read?
  rw [opcode, components]
  rfl

theorem spells_function {result : Ty} {parameters : List Ty} {ds : List Decoration} {ids : List Id}
    (settled : Decoration.Settled ds) (components : List.Forall₂ (KnownAs known) ids (result :: parameters)) :
    Spells known (.typeFunction, componentOperands ids) (.function result parameters ds) := by
  refine ⟨rfl, fun id => ?_⟩
  obtain ⟨tys, read, same⟩ := readComponents_known (i :=
    { opcode := .typeFunction, resultId := id, operands := componentOperands ids }) components rfl
  cases tys with
  | nil => cases same
  | cons result' parameters' =>
    obtain ⟨first, others⟩ := List.cons.inj same
    refine ⟨.function result' parameters' [], ofInstruction_of_read (read?_function rfl read),
      .function result' parameters' ds, ?_, rfl, by rw [key, key, first, others]⟩
    simp only [Ty.decorated, settled.sort, decorations]
    rfl

/-! ### Types that are like one another -/

variable {ty : Ty}

theorem eq_atom_of_key {form : Atom} {ds : List Decoration} (same : ty.key = (atom form ds).key) :
    ty = .atom form ds := by
  cases ty with
  | atom => exact same
  | wrap | struct | function =>
    simp only [key] at same
    cases same

theorem eq_pointer_of_key {component : Ty} {number : Int} (same : ty.key = (pointer component (.int number)).key) :
    ∃ storage component', ty = .wrap (.pointer storage) component' [] ∧ storage.number? = some number ∧
      component'.key = component.key := by
  cases ty with
  | wrap form component' ds =>
    simp only [pointer, key, wrap.injEq] at same
    obtain ⟨forms, components, rfl⟩ := same
    cases form with
    | pointer storage =>
      refine ⟨storage, component', rfl, ?_, components⟩
      rw [← storage.number?_plain, Wrapper.pointer.inj forms]
      rfl
    | vector | matrix | array | runtimeArray => cases forms
  | atom | struct | function =>
    simp only [pointer, key] at same
    cases same

theorem eq_runtimeArray_of_key {component : Ty} {ds : List Decoration}
    (same : ty.key = (wrap .runtimeArray component ds).key) :
    ∃ component', ty = .wrap .runtimeArray component' ds ∧ component'.key = component.key := by
  cases ty with
  | wrap form component' ds' =>
    simp only [key, wrap.injEq] at same
    obtain ⟨forms, components, rfl⟩ := same
    cases form with
    | runtimeArray => exact ⟨component', rfl, components⟩
    | vector | matrix | array | pointer => cases forms
  | atom | struct | function =>
    simp only [key] at same
    cases same

theorem eq_struct_of_keys {members : List Ty} {mds ds : List Decoration}
    (same : ty.key = (struct members mds ds).key) :
    ∃ members', ty = .struct members' mds ds ∧ keys members' = keys members := by
  cases ty with
  | struct members' mds' ds' =>
    simp only [key, struct.injEq] at same
    obtain ⟨inner, rfl, rfl⟩ := same
    exact ⟨members', rfl, inner⟩
  | atom | wrap | function =>
    simp only [key] at same
    cases same

theorem eq_struct_of_key {member : Ty} {mds ds : List Decoration} (same : ty.key = (struct [member] mds ds).key) :
    ∃ member', ty = .struct [member'] mds ds ∧ member'.key = member.key := by
  obtain ⟨members', rfl, members⟩ := eq_struct_of_keys same
  cases members' with
  | nil => cases members
  | cons member' rest =>
    obtain ⟨first, others⟩ := List.cons.inj members
    cases rest with
    | nil => exact ⟨member', rfl, first⟩
    | cons => cases others

end Ty

end BlockTally
