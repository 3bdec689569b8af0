import BlockTally.Ty.Decorations
import Mathlib.Data.List.Sort

/-! The sorted forms of decorations.

Decorations are ordered by the first values that differ. The order is total, also where a number meets a text, so
sorted lists with the same entries are equal. What is sorted with repetitions depends on how often each decoration is
listed, what is sorted without them on the set of decorations only.
-/

set_option autoImplicit false

namespace BlockTally

namespace Value

theorem int_le {m n : Int} : le (.int m) (.int n) = true ↔ m ≤ n :=
  decide_eq_true_iff

theorem str_le {s t : String} : le (.str s) (.str t) = true ↔ s ≤ t := by
  rw [le, Bool.not_eq_true', decide_eq_false_iff_not]
  exact String.not_lt

theorem le_total (a b : Value) : a.le b = true ∨ b.le a = true := by
  match a, b with
  | .int m, .int n => exact (Int.le_total m n).imp int_le.mpr int_le.mpr
  | .int _, .str _ => exact .inl rfl
  | .str _, .int _ => exact .inr rfl
  | .str s, .str t => exact (String.le_total s t).imp str_le.mpr str_le.mpr

theorem le_antisymm {a b : Value} (first : a.le b = true) (second : b.le a = true) : a = b := by
  match a, b with
  | .int _, .int _ => rw [Int.le_antisymm (int_le.mp first) (int_le.mp second)]
  | .int _, .str _ => cases second
  | .str _, .int _ => cases first
  | .str _, .str _ => rw [String.le_antisymm (str_le.mp first) (str_le.mp second)]

theorem le_trans {a b c : Value} (first : a.le b = true) (second : b.le c = true) : a.le c = true := by
  match a, b, c with
  | .int _, .int _, .int _ => exact int_le.mpr (Int.le_trans (int_le.mp first) (int_le.mp second))
  | .int _, _, .str _ => rfl
  | .str _, .int _, _ => cases first
  | _, .str _, .int _ => cases second
  | .str _, .str _, .str _ => exact str_le.mpr (String.le_trans (str_le.mp first) (str_le.mp second))

end Value

namespace Decoration

def Precedes (d e : Decoration) : Prop :=
  le d e = true

instance : DecidableRel Precedes :=
  fun d e => inferInstanceAs (Decidable (le d e = true))

theorem precedes_total (d e : Decoration) : Precedes d e ∨ Precedes e d := by
  induction d generalizing e with
  | nil => exact .inl rfl
  | cons a as ih =>
    cases e with
    | nil => exact .inr rfl
    | cons b bs =>
      by_cases same : a = b
      · subst same
        simpa [Precedes, le] using ih bs
      · simpa [Precedes, le, same, Ne.symm same] using a.le_total b

theorem precedes_antisymm {d e : Decoration} (first : Precedes d e) (second : Precedes e d) : d = e := by
  induction d generalizing e with
  | nil =>
    cases e with
    | nil => rfl
    | cons => cases second
  | cons a as ih =>
    cases e with
    | nil => cases first
    | cons b bs =>
      by_cases same : a = b
      · subst same
        simp only [Precedes, le, if_pos] at first second
        rw [ih first second]
      · simp only [Precedes, le, if_neg same, if_neg (Ne.symm same)] at first second
        exact absurd (Value.le_antisymm first second) same

theorem precedes_trans {d e f : Decoration} (first : Precedes d e) (second : Precedes e f) : Precedes d f := by
  induction d generalizing e f with
  | nil => rfl
  | cons a as ih =>
    match e, f with
    | [], _ => cases first
    | _ :: _, [] => cases second
    | b :: bs, c :: cs =>
      simp only [Precedes, le] at first second ⊢
      -- The first of the two places where neighbours differ decides.
      by_cases ab : a = b
      · subst ab
        by_cases ac : a = c
        · subst ac
          simp only [if_pos] at first second ⊢
          exact ih first second
        · simpa only [if_neg ac] using second
      · by_cases bc : b = c
        · subst bc
          simpa only [if_neg ab] using first
        · simp only [if_neg ab, if_neg bc] at first second
          have ac : a ≠ c := fun same => ab (Value.le_antisymm first (same ▸ second))
          simpa only [if_neg ac] using Value.le_trans first second

instance : Std.Total Precedes := ⟨precedes_total⟩

instance : IsTrans Decoration Precedes := ⟨fun _ _ _ => precedes_trans⟩

instance : Std.Antisymm Precedes := ⟨fun _ _ => precedes_antisymm⟩

/-! ### Sorting with repetitions -/

theorem insert_eq (d : Decoration) (ds : List Decoration) : insert d ds = ds.orderedInsert Precedes d := by
  induction ds with
  | nil => rfl
  | cons e rest ih => rw [insert, List.orderedInsert_cons, ih]; rfl

theorem sorted_eq (ds : List Decoration) : sorted ds = ds.insertionSort Precedes := by
  have same : insert = List.orderedInsert Precedes := funext fun d => funext fun ds => insert_eq d ds
  rw [sorted, same]
  rfl

theorem perm_sorted (ds : List Decoration) : (sorted ds).Perm ds := by
  rw [sorted_eq]
  exact List.perm_insertionSort _ ds

theorem pairwise_sorted (ds : List Decoration) : (sorted ds).Pairwise Precedes := by
  rw [sorted_eq]
  exact List.pairwise_insertionSort _ ds

/-! ### Sorting without repetitions -/

theorem mem_insertDistinct {d e : Decoration} {ds : List Decoration} : e ∈ insertDistinct d ds ↔ e = d ∨ e ∈ ds := by
  induction ds with
  | nil => simp [insertDistinct]
  | cons f rest ih =>
    rw [insertDistinct]
    split
    next same => simp [same]
    next =>
      split
      · exact List.mem_cons
      · rw [List.mem_cons, ih, List.mem_cons]
        exact or_left_comm

theorem pairwise_insertDistinct {d : Decoration} {ds : List Decoration} (h : ds.Pairwise Precedes) :
    (insertDistinct d ds).Pairwise Precedes := by
  induction ds with
  | nil => exact List.pairwise_singleton _ _
  | cons e rest ih =>
    obtain ⟨first, others⟩ := List.pairwise_cons.mp h
    rw [insertDistinct]
    split
    · exact h
    next =>
      split
      next before =>
        exact List.pairwise_cons.mpr ⟨List.forall_mem_cons.mpr
          ⟨before, fun f member => precedes_trans before (first f member)⟩, h⟩
      next behind =>
        refine List.pairwise_cons.mpr ⟨fun f member => ?_, ih others⟩
        rcases mem_insertDistinct.mp member with rfl | old
        · exact (precedes_total f e).resolve_left behind
        · exact first f old

theorem nodup_insertDistinct {d : Decoration} {ds : List Decoration} (h : ds.Pairwise Precedes) (distinct : ds.Nodup) :
    (insertDistinct d ds).Nodup := by
  induction ds with
  | nil => exact List.nodup_singleton d
  | cons e rest ih =>
    obtain ⟨first, others⟩ := List.pairwise_cons.mp h
    obtain ⟨new, distinct'⟩ := List.nodup_cons.mp distinct
    rw [insertDistinct]
    split
    · exact distinct
    next other =>
      split
      next before =>
        -- The list is sorted, so what comes before its first entry is not in it.
        refine List.nodup_cons.mpr ⟨fun member => ?_, distinct⟩
        rcases List.mem_cons.mp member with same | later
        · exact other same
        · exact other (precedes_antisymm before (first d later))
      next =>
        refine List.nodup_cons.mpr ⟨fun member => ?_, ih others distinct'⟩
        rcases mem_insertDistinct.mp member with same | later
        · exact other same.symm
        · exact new later

theorem mem_sortedDistinct {d : Decoration} {ds : List Decoration} : d ∈ sortedDistinct ds ↔ d ∈ ds := by
  induction ds with
  | nil => rfl
  | cons e rest ih => exact mem_insertDistinct.trans ((or_congr_right ih).trans List.mem_cons.symm)

theorem pairwise_sortedDistinct (ds : List Decoration) : (sortedDistinct ds).Pairwise Precedes := by
  induction ds with
  | nil => exact .nil
  | cons d rest ih => exact pairwise_insertDistinct ih

theorem nodup_sortedDistinct (ds : List Decoration) : (sortedDistinct ds).Nodup := by
  induction ds with
  | nil => exact List.nodup_nil
  | cons d rest ih => exact nodup_insertDistinct (pairwise_sortedDistinct rest) ih

/-- Without repetitions there is one sorted list for each set of decorations. -/
theorem sortedDistinct_eq_iff {ds es : List Decoration} :
    sortedDistinct ds = sortedDistinct es ↔ ∀ d, d ∈ ds ↔ d ∈ es := by
  constructor
  · intro same d
    rw [← mem_sortedDistinct, same, mem_sortedDistinct]
  · intro same
    refine List.Perm.eq_of_pairwise' (pairwise_sortedDistinct ds) (pairwise_sortedDistinct es) ?_
    refine (List.perm_ext_iff_of_nodup (nodup_sortedDistinct ds) (nodup_sortedDistinct es)).mpr fun d => ?_
    rw [mem_sortedDistinct, mem_sortedDistinct, same]

/-- The two ways to sort agree exactly on lists without repetitions. -/
theorem sorted_eq_sortedDistinct_iff {ds : List Decoration} : sorted ds = sortedDistinct ds ↔ ds.Nodup := by
  constructor
  · intro same
    rw [← (perm_sorted ds).nodup_iff, same]
    exact nodup_sortedDistinct ds
  · intro distinct
    refine List.Perm.eq_of_pairwise' (pairwise_sorted ds) (pairwise_sortedDistinct ds) ?_
    refine (List.perm_ext_iff_of_nodup ((perm_sorted ds).nodup_iff.mpr distinct) (nodup_sortedDistinct ds)).mpr ?_
    exact fun d => (perm_sorted ds).mem_iff.trans mem_sortedDistinct.symm

theorem allComparable_congr {ds es : List Decoration} (same : ∀ d, d ∈ ds ↔ d ∈ es) :
    allComparable ds = allComparable es := by
  rw [Bool.eq_iff_iff]
  simp only [allComparable, List.all_eq_true, same]

/-- Sorting without repetitions sees only which decorations there are, also when it fails. -/
theorem sortSet_congr {ds es : List Decoration} (same : ∀ d, d ∈ ds ↔ d ∈ es) : sortSet ds = sortSet es := by
  rw [sortSet, sortSet, allComparable_congr same, sortedDistinct_eq_iff.mpr same]

end Decoration

end BlockTally
