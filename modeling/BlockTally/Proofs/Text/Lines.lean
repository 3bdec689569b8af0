import BlockTally.Program.Listing
import Mathlib.Algebra.Order.BigOperators.Group.List
import Mathlib.Algebra.Order.Ring.Nat

/-! Texts read line by line.

A text that is written as lines is read as the same lines if none of them has a line feed of its own. If one has, it is
read as one line more for each.
-/

set_option autoImplicit false

namespace BlockTally.Text

def lineFeeds (text : String) : Nat :=
  text.toList.count '\n'

def parts (text : String) : List String :=
  (text.toList.splitOn '\n').map String.ofList

/-- The lines of a text. What is behind the last line feed is no line. -/
def lines (text : String) : List String :=
  (parts text).dropLast

variable {text : String}

/-! ### Line feeds -/

theorem lineFeeds_eq_zero_iff : lineFeeds text = 0 ↔ '\n' ∉ text.toList :=
  List.count_eq_zero

@[simp] theorem lineFeeds_append (front back : String) :
    lineFeeds (front ++ back) = lineFeeds front + lineFeeds back := by
  simp [lineFeeds]

theorem lineFeeds_intercalate {separator : String} (none : lineFeeds separator = 0) (texts : List String) :
    lineFeeds (separator.intercalate texts) = (texts.map lineFeeds).sum := by
  induction texts with
  | nil => rfl
  | cons first rest ih =>
    cases rest with
    | nil => simp
    | cons second rest =>
      rw [String.intercalate_cons_cons, lineFeeds_append, lineFeeds_append, none, ih]
      simp

theorem lineFeeds_toString (number : Int) : lineFeeds (toString number) = 0 := by
  have digits (n : Nat) : '\n' ∉ n.repr.toList := by
    rw [Nat.toList_repr]
    intro member
    exact absurd (Nat.isDigit_of_mem_toDigits (by decide) (by decide) member) (by decide)
  rw [lineFeeds_eq_zero_iff, Int.toString_eq_repr, Int.repr_eq_if]
  split
  · exact digits _
  · rw [String.toList_append, List.mem_append]
    exact not_or.mpr ⟨by decide, digits _⟩

/-! ### Parts -/

theorem length_parts (text : String) : (parts text).length = lineFeeds text + 1 := by
  unfold parts lineFeeds
  rw [List.length_map]
  induction text.toList with
  | nil => rfl
  | cons c rest ih =>
    rw [List.splitOn, List.splitOnP_cons_eq_if_modifyHead, List.count_cons]
    -- A line feed starts a new part, and any other character belongs to the first part of the rest.
    split
    · rw [List.length_cons, ← List.splitOn, ih]
    · rw [List.length_modifyHead, ← List.splitOn, ih, Nat.add_zero]

theorem parts_eq_singleton (none : lineFeeds text = 0) : parts text = [text] := by
  rw [parts, List.splitOn_eq_singleton (lineFeeds_eq_zero_iff.mp none), List.map_singleton, String.ofList_toList]

theorem parts_append (front back : String) : parts (front ++ "\n" ++ back) = parts front ++ parts back := by
  have feed : (front ++ "\n" ++ back).toList = front.toList ++ '\n' :: back.toList := by simp
  rw [parts, feed, List.splitOn_append_cons_self, List.map_append]
  rfl

theorem intercalate_parts (text : String) : "\n".intercalate (parts text) = text := by
  apply String.toList_injective
  have same : (parts text).map String.toList = text.toList.splitOn '\n' := by simp [parts]
  rw [String.toList_intercalate, same]
  exact List.intercalate_splitOn '\n'

/-! ### Lines -/

open Program (linesText)

theorem linesText_cons (line : String) (rest : List String) :
    linesText (line :: rest) = line ++ "\n" ++ linesText rest := by
  simp [linesText]

theorem linesText_append (front back : List String) :
    linesText (front ++ back) = linesText front ++ linesText back := by
  induction front with
  | nil => simp [linesText]
  | cons line rest ih => simp only [List.cons_append, linesText_cons, ih, String.append_assoc]

theorem linesText_eq_intercalate {texts : List String} (nonempty : texts ≠ []) :
    linesText texts = "\n".intercalate texts ++ "\n" := by
  induction texts with
  | nil => contradiction
  | cons first rest ih =>
    cases rest with
    | nil => simp [linesText]
    | cons second rest =>
      rw [linesText_cons, ih (List.cons_ne_nil _ _), String.intercalate_cons_cons]
      simp only [String.append_assoc]

/-- A text on lines of its own, written part by part. -/
theorem linesText_parts (text : String) : linesText (parts text) = text ++ "\n" := by
  have nonempty : parts text ≠ [] := List.ne_nil_of_length_eq_add_one (length_parts text)
  rw [linesText_eq_intercalate nonempty, intercalate_parts]

theorem linesText_flatMap_parts (texts : List String) : linesText (texts.flatMap parts) = linesText texts := by
  induction texts with
  | nil => rfl
  | cons first rest ih => rw [List.flatMap_cons, linesText_append, linesText_parts, ih, linesText_cons]

/-- What was written as lines is read as their parts, one after the other. -/
theorem lines_linesText (texts : List String) : lines (linesText texts) = texts.flatMap parts := by
  suffices split : parts (linesText texts) = texts.flatMap parts ++ [""] by rw [lines, split, List.dropLast_concat]
  induction texts with
  | nil => rfl
  | cons first rest ih => rw [linesText_cons, parts_append, ih, List.flatMap_cons, List.append_assoc]

theorem linesText_lines (texts : List String) : linesText (lines (linesText texts)) = linesText texts := by
  rw [lines_linesText, linesText_flatMap_parts]

theorem length_flatMap_parts (texts : List String) :
    (texts.flatMap parts).length = texts.length + (texts.map lineFeeds).sum := by
  induction texts with
  | nil => rfl
  | cons first rest ih =>
    rw [List.flatMap_cons, List.length_append, length_parts, ih, List.length_cons, List.map_cons, List.sum_cons]
    omega

/-- Lines are read as they were written just if none has a line feed of its own. -/
theorem flatMap_parts_eq_iff {texts : List String} : texts.flatMap parts = texts ↔ (texts.map lineFeeds).sum = 0 := by
  constructor
  · intro same
    have length := length_flatMap_parts texts
    rw [same] at length
    omega
  · intro none
    rw [List.sum_eq_zero_iff, List.forall_mem_map] at none
    rw [List.flatMap_congr fun text member => parts_eq_singleton (none text member), List.flatMap_singleton']

end BlockTally.Text
