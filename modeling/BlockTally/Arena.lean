/-! Arenas: growing stores whose entries are named by the order in which they were made.

An entry keeps its name for good, so that one thing can be listed in several places and a change to it
is seen from each of them. Reading a name that was never given out yields the default.
-/

set_option autoImplicit false

namespace BlockTally

structure Arena (α : Type) where
  items : Array α := #[]
  deriving DecidableEq, Repr, Inhabited

namespace Arena

variable {α : Type}

def size (a : Arena α) : Nat :=
  a.items.size

/-- Add an entry; its name is the old size. -/
def push (a : Arena α) (entry : α) : Arena α :=
  ⟨a.items.push entry⟩

@[simp] theorem size_push (a : Arena α) (entry : α) : (a.push entry).size = a.size + 1 :=
  Array.size_push ..

variable [Inhabited α]

def get (a : Arena α) (name : Nat) : α :=
  a.items[name]?.getD default

def update (a : Arena α) (name : Nat) (change : α → α) : Arena α :=
  ⟨a.items.setIfInBounds name (change (a.get name))⟩

@[simp] theorem size_update (a : Arena α) (name : Nat) (change : α → α) : (a.update name change).size = a.size :=
  Array.size_setIfInBounds ..

theorem get_push (a : Arena α) (entry : α) (name : Nat) :
    (a.push entry).get name = if name = a.size then entry else a.get name := by
  simp only [get, push, size, Array.getElem?_push]
  by_cases new : name = a.items.size <;> simp [new]

theorem get_push_of_lt (a : Arena α) (entry : α) {name : Nat} (old : name < a.size) :
    (a.push entry).get name = a.get name := by
  rw [get_push, if_neg (by omega)]

theorem get_update (a : Arena α) (name other : Nat) (change : α → α) :
    (a.update name change).get other =
      if name = other ∧ name < a.size then change (a.get name) else a.get other := by
  simp only [get, update, size, Array.getElem?_setIfInBounds]
  by_cases same : name = other
  · subst same
    by_cases old : name < a.items.size <;> simp [old]
  · simp [same]

end Arena

end BlockTally
