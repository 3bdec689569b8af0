/-! Positions in lists. A negative position counts from the end. -/

set_option autoImplicit false

namespace BlockTally.Position

/-- The entry a position names in a list of the given length, if there is one. -/
def index? (length : Nat) (position : Int) : Option Nat :=
  let place := if position < 0 then position + length else position
  if 0 ≤ place ∧ place < length then some place.toNat else none

/-- The gap between entries that a position names; one outside the list is moved to the nearer end. -/
def gap (length : Nat) (position : Int) : Nat :=
  let place := if position < 0 then position + length else position
  min place.toNat length

/-- The entry of a list at a position, if there is one. -/
def get? {α : Type} (entries : List α) (position : Int) : Option α :=
  (index? entries.length position).bind fun place => entries[place]?

theorem index?_lt {length : Nat} {position : Int} {place : Nat} (found : index? length position = some place) :
    place < length := by
  simp only [index?] at found
  split at found <;> simp_all <;> omega

theorem gap_le (length : Nat) (position : Int) : gap length position ≤ length :=
  Nat.min_le_right _ _

theorem gap_natCast {length place : Nat} (inside : place ≤ length) : gap length place = place := by
  simp only [gap]
  omega

end BlockTally.Position
