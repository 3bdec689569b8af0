import BlockTally.Proofs.Contract
import BlockTally.Proofs.Exhaustion
import BlockTally.Workspace.Types
import Mathlib.Data.List.Forall2

/-! Requests for types, in the eyes of an account.

A request looks the type up. If it is not found, the request goes on to the components and then declares the type by
their ids. So an account covers all requests for types as soon as it covers these two: to look types up, and to declare
a type by ids that stand for its components.
-/

set_option autoImplicit false

namespace BlockTally

namespace Ty

def components : Ty → List Ty
  | .atom .. => []
  | .wrap _ component _ => [component]
  | .struct members _ _ => members
  | .function result parameters _ => result :: parameters

inductive DeclaredBy (stands : Id → Ty → Prop) : Opcode × List Operand → Ty → Prop
  | atom {form : Atom} {ds : List Decoration} {declaration : Opcode × List Operand}
      (found : atomDeclaration? form = some declaration) : DeclaredBy stands declaration (.atom form ds)
  | wrap {form : Wrapper} {component : Ty} {ds : List Decoration} {id : Id} (inner : stands id component) :
      DeclaredBy stands (wrapDeclaration id form) (.wrap form component ds)
  | struct {members : List Ty} {mds ds : List Decoration} {ids : List Id}
      (inner : List.Forall₂ stands ids members) :
      DeclaredBy stands (.typeStruct, componentOperands ids) (.struct members mds ds)
  | function {result : Ty} {parameters : List Ty} {ds : List Decoration} {ids : List Id}
      (inner : List.Forall₂ stands ids (result :: parameters)) :
      DeclaredBy stands (.typeFunction, componentOperands ids) (.function result parameters ds)

end Ty

theorem TypeTable.type?_register (t : TypeTable) (id : Id) (ty : Ty) (v : Value) :
    (t.register id ty).type? v = if .int id = v then some ty else t.type? v := by
  simp only [register, type?, Table.get?_set]

theorem TypeTable.entry_of_id {t : TypeTable} {ty : Ty} (nonzero : t.id ty ≠ 0) :
    ∃ entry, t.byType.get? ty.key = some entry ∧ entry.id = t.id ty := by
  unfold TypeTable.id at *
  cases found : t.byType.get? ty.key with
  | none => simp [found] at nonzero
  | some entry => exact ⟨entry, rfl, rfl⟩

namespace Workspace

open Account

section Found

variable {w : Workspace} {t : TypeTable}

theorem needTypes_of_found (found : w.facts.types = some t) : needTypes w = .ok t w := by
  unfold needTypes
  rw [Change.get_bind, found]
  rfl

/-- A type is looked up first. -/
theorem typeId_congr_of_read {w' : Workspace} (read : needTypes w = .ok t w') (again : needTypes w' = .ok t w')
    (ty : Ty) : typeId ty w = typeId ty w' := by
  have known (make : Action Id) : known ty make w = known ty make w' := by
    unfold Workspace.known
    rw [Change.bind_of_ok read, Change.bind_of_ok again]
  cases ty <;> unfold typeId <;> exact known _

theorem typeId_of_found {ty : Ty} (found : w.facts.types = some t) (nonzero : t.id ty ≠ 0) :
    typeId ty w = .ok (t.id ty) w := by
  have known (make : Action Id) : known ty make w = .ok (t.id ty) w := by
    unfold Workspace.known
    rw [Change.bind_of_ok (needTypes_of_found found)]
    simp only [ne_eq, nonzero, not_false_eq_true, if_true]
    rfl
  cases ty <;> unfold typeId <;> exact known _

theorem typeIds_of_found {tys : List Ty} (found : w.facts.types = some t)
    (nonzero : ∀ ty ∈ tys, t.id ty ≠ 0) : typeIds tys w = .ok (tys.map t.id) w := by
  induction tys with
  | nil => rfl
  | cons ty rest ih =>
    rw [List.forall_mem_cons] at nonzero
    unfold typeIds
    rw [Change.bind_of_ok (typeId_of_found found nonzero.1), Change.bind_of_ok (ih nonzero.2)]
    rfl

end Found

/-- The type is declared without components, or the request is refused. -/
theorem atomDeclaration_ok {form : Atom} {ds : List Decoration} {declaration : Opcode × List Operand}
    (found : atomDeclaration form ds = .ok declaration) : Ty.atomDeclaration? form = some declaration := by
  unfold atomDeclaration at found
  split at found
  next declared => rw [declared, Except.ok.inj found]
  next =>
    obtain ⟨_, -, failed⟩ := except_bind_ok_iff.mp found
    cases failed

/-- An account of how types are looked up and declared. Requests may begin wherever `inv` holds, and are `ready` to
go on once types were looked up: every type that is `asked` for gets an id that `stands` for it. -/
structure ServesTypes (A : Account Workspace) (inv ready : Workspace → Prop) (asked : Workspace → Ty → Prop)
    (stands : Workspace → Id → Ty → Prop) : Prop where
  start : ∀ {w}, ready w → inv w
  kept : ∀ {w w'}, ready w → A.moves w w' → ready w'
  still : ∀ {w w' ty}, inv w → A.moves w w' → asked w ty → asked w' ty
  component : ∀ {w ty}, asked w ty → ∀ inner ∈ ty.components, asked w inner
  later : ∀ {w w' id ty}, ready w → A.moves w w' → stands w id ty → stands w' id ty
  found : ∀ {w}, inv w → A.Keeps needTypes w fun t w' => ready w' ∧ ∀ ty, t.id ty ≠ 0 → stands w' (t.id ty) ty
  declared : ∀ {w ty declaration}, ready w → asked w ty → Ty.DeclaredBy (stands w) declaration ty →
    A.Keeps (declareNew ty declaration) w fun id w' => stands w' id ty

namespace ServesTypes

variable {A : Account Workspace} {inv ready : Workspace → Prop} {asked : Workspace → Ty → Prop}
  {stands : Workspace → Id → Ty → Prop} {w : Workspace} (h : ServesTypes A inv ready asked stands)
include h

/-- A type that is not found is made where types can be found. -/
theorem keeps_known {ty : Ty} {make : Action Id} (start : inv w) (wanted : asked w ty)
    (making : ∀ w', ready w' → asked w' ty → A.Keeps make w' fun id w'' => stands w'' id ty) :
    A.Keeps (known ty make) w fun id w' => stands w' id ty := by
  unfold known
  refine (h.found start).bind fun t w₁ move held => ?_
  dsimp only
  split
  next nonzero => exact Keeps.pure (held.2 ty nonzero)
  next => exact making w₁ held.1 (h.still start move wanted)

mutual

/-- A request for a type is answered with an id that stands for it, if at all. -/
theorem keeps_typeId : (ty : Ty) → {w : Workspace} → inv w → asked w ty →
    A.Keeps (typeId ty) w fun id w' => stands w' id ty
  | .atom form ds, w, start, wanted => by
      unfold typeId
      refine h.keeps_known start wanted fun w₁ ready₁ wanted₁ => ?_
      refine (Keeps.check (atomDeclaration_sparesIds form ds)).bind fun declaration w₂ _ held => ?_
      obtain ⟨passed, rfl⟩ := held
      exact h.declared ready₁ wanted₁ (.atom (atomDeclaration_ok passed))
  | .wrap form component ds, w, start, wanted => by
      unfold typeId
      refine h.keeps_known start wanted fun w₁ ready₁ wanted₁ => ?_
      have inside := h.component wanted₁ component (List.mem_singleton_self _)
      refine (keeps_typeId component (h.start ready₁) inside).bind fun id w₂ move inner => ?_
      exact h.declared (h.kept ready₁ move) (h.still (h.start ready₁) move wanted₁) (.wrap inner)
  | .struct members mds ds, w, start, wanted => by
      unfold typeId
      refine h.keeps_known start wanted fun w₁ ready₁ wanted₁ => ?_
      have inside := h.component wanted₁
      refine (keeps_typeIds members ready₁ inside).bind fun ids w₂ move inner => ?_
      exact h.declared (h.kept ready₁ move) (h.still (h.start ready₁) move wanted₁) (.struct inner)
  | .function result parameters ds, w, start, wanted => by
      unfold typeId
      refine h.keeps_known start wanted fun w₁ ready₁ wanted₁ => ?_
      have inside := List.forall_mem_cons.mp (h.component wanted₁)
      refine (keeps_typeId result (h.start ready₁) inside.1).bind fun id w₂ move₂ first => ?_
      have ready₂ := h.kept ready₁ move₂
      have inside₂ : ∀ inner ∈ parameters, asked w₂ inner :=
        fun inner member => h.still (h.start ready₁) move₂ (inside.2 inner member)
      refine (keeps_typeIds parameters ready₂ inside₂).bind fun ids w₃ move₃ others => ?_
      have move := A.trans move₂ move₃
      exact h.declared (h.kept ready₁ move) (h.still (h.start ready₁) move wanted₁)
        (.function (.cons (h.later ready₂ move₃ first) others))

theorem keeps_typeIds : (tys : List Ty) → {w : Workspace} → ready w → (∀ ty ∈ tys, asked w ty) →
    A.Keeps (typeIds tys) w fun ids w' => List.Forall₂ (stands w') ids tys
  | [], _, _, _ => Keeps.pure .nil
  | ty :: rest, w, ready₀, wanted => by
      unfold typeIds
      rw [List.forall_mem_cons] at wanted
      refine (keeps_typeId ty (h.start ready₀) wanted.1).bind fun id w₁ move₁ first => ?_
      have ready₁ := h.kept ready₀ move₁
      have wanted₁ : ∀ inner ∈ rest, asked w₁ inner :=
        fun inner member => h.still (h.start ready₀) move₁ (wanted.2 inner member)
      refine (keeps_typeIds rest ready₁ wanted₁).bind fun ids w₂ move₂ others => ?_
      exact Keeps.pure (.cons (h.later ready₁ move₂ first) others)

end

end ServesTypes

end Workspace

end BlockTally
