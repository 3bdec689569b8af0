/-! Tables that keep the order in which their keys were first written. -/

set_option autoImplicit false

namespace BlockTally

structure Table (κ υ : Type) where
  entries : List (κ × υ) := []
  deriving DecidableEq, Repr, Inhabited

namespace Table

variable {κ υ : Type} [DecidableEq κ]

def lookIn (key : κ) : List (κ × υ) → Option υ
  | [] => none
  | (k, v) :: rest => if k = key then some v else lookIn key rest

def writeIn (key : κ) (value : υ) : List (κ × υ) → List (κ × υ)
  | [] => [(key, value)]
  | (k, v) :: rest => if k = key then (k, value) :: rest else (k, v) :: writeIn key value rest

def get? (t : Table κ υ) (key : κ) : Option υ :=
  lookIn key t.entries

def contains (t : Table κ υ) (key : κ) : Bool :=
  (t.get? key).isSome

/-- Write a value; a key that is present keeps its place. -/
def set (t : Table κ υ) (key : κ) (value : υ) : Table κ υ :=
  ⟨writeIn key value t.entries⟩

/-- Write a value unless the key has one. -/
def setIfNew (t : Table κ υ) (key : κ) (value : υ) : Table κ υ :=
  if t.contains key then t else t.set key value

def erase (t : Table κ υ) (key : κ) : Table κ υ :=
  ⟨t.entries.filter fun entry => entry.1 ≠ key⟩

def size (t : Table κ υ) : Nat :=
  t.entries.length

def keys (t : Table κ υ) : List κ :=
  t.entries.map Prod.fst

/-- The entries in the order of their keys. -/
def sortedBy (le : κ → κ → Bool) (t : Table κ υ) : List (κ × υ) :=
  t.entries.mergeSort fun a b => le a.1 b.1

theorem lookIn_writeIn (key other : κ) (value : υ) (entries : List (κ × υ)) :
    lookIn other (writeIn key value entries) = if key = other then some value else lookIn other entries := by
  induction entries with
  | nil => simp [writeIn, lookIn]
  | cons entry rest ih =>
    obtain ⟨k, v⟩ := entry
    by_cases here : k = key
    · subst here
      by_cases same : k = other <;> simp [writeIn, lookIn, same]
    · by_cases same : key = other
      · subst same
        simpa [writeIn, lookIn, here] using ih
      · by_cases found : k = other <;> simp_all [writeIn, lookIn]

@[simp] theorem get?_empty (key : κ) : (⟨[]⟩ : Table κ υ).get? key = none := rfl

theorem get?_set (t : Table κ υ) (key other : κ) (value : υ) :
    (t.set key value).get? other = if key = other then some value else t.get? other :=
  lookIn_writeIn key other value t.entries

theorem get?_setIfNew (t : Table κ υ) (key other : κ) (value : υ) :
    (t.setIfNew key value).get? other =
      if key = other then some ((t.get? key).getD value) else t.get? other := by
  unfold setIfNew contains
  cases present : t.get? key with
  | none => simp [get?_set]
  | some old =>
    by_cases same : key = other
    · subst same
      simp [present]
    · simp [same]

theorem get?_erase (t : Table κ υ) (key other : κ) :
    (t.erase key).get? other = if key = other then none else t.get? other := by
  obtain ⟨entries⟩ := t
  simp only [get?, erase]
  induction entries with
  | nil => simp [lookIn]
  | cons entry rest ih =>
    obtain ⟨k, v⟩ := entry
    by_cases here : k = key
    · subst here
      by_cases same : k = other <;> simp_all [lookIn]
    · by_cases same : key = other
      · subst same
        simpa [lookIn, here] using ih
      · by_cases found : k = other <;> simp_all [lookIn]

end Table

end BlockTally
