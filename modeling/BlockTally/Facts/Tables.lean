import BlockTally.Table
import BlockTally.Ty.Basic

/-! The known types and constants of a module, in both directions.

An id stands for the type that was registered for it last; a type is handed out under the id it was
registered with first. Types that differ only in the spelling of storage classes are the same.
-/

set_option autoImplicit false

namespace BlockTally

/-- A type as it was spelled when it was found first, with the id it goes with. -/
structure Entry where
  type : Ty
  id : Id
  deriving DecidableEq, Repr, Inhabited

structure TypeTable where
  byId : Table Value Ty := {}
  byType : Table Ty Entry := {}
  deriving Inhabited

namespace TypeTable

def type? (t : TypeTable) (id : Value) : Option Ty :=
  t.byId.get? id

/-- The id of a type, 0 if it has none. -/
def id (t : TypeTable) (ty : Ty) : Id :=
  ((t.byType.get? ty.key).map Entry.id).getD 0

def register (t : TypeTable) (id : Id) (ty : Ty) : TypeTable where
  byId := t.byId.set (.int id) ty
  byType := t.byType.setIfNew ty.key ⟨ty, id⟩

end TypeTable

/-- Scalar constants by type and value. -/
structure ConstantTable where
  byValue : Table (Ty × Value) Entry := {}
  deriving Inhabited

namespace ConstantTable

def id? (t : ConstantTable) (ty : Ty) (value : Value) : Option Id :=
  (t.byValue.get? (ty.key, value)).map Entry.id

/-- Register a constant, unless there is one of the type with the value. -/
def register (t : ConstantTable) (ty : Ty) (value : Value) (id : Id) : ConstantTable :=
  ⟨t.byValue.setIfNew (ty.key, value) ⟨ty, id⟩⟩

end ConstantTable

end BlockTally
