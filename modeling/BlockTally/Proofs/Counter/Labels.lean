import BlockTally.Counter.Labels
import BlockTally.Proofs.Calls

/-! The numbering of blocks.

The numbers are the positions in the list of all traced blocks, and no two blocks share a label.
-/

set_option autoImplicit false

namespace BlockTally

namespace Table

variable {κ υ : Type} [DecidableEq κ]

/-- A new key goes to the end. -/
theorem entries_set_of_none {t : Table κ υ} {key : κ} (value : υ) (absent : t.get? key = none) :
    (t.set key value).entries = t.entries ++ [(key, value)] := by
  obtain ⟨entries⟩ := t
  unfold get? at absent
  simp only [set]
  induction entries with
  | nil => rfl
  | cons entry rest ih =>
    obtain ⟨k, v⟩ := entry
    unfold lookIn at absent
    by_cases here : k = key
    · simp [here] at absent
    · rw [if_neg here] at absent
      simp [writeIn, here, ih absent]

theorem lookIn_zipIdx {keys : List κ} (distinct : keys.Nodup) {place : Nat} {key : κ} (start : Nat)
    (found : keys[place]? = some key) : lookIn key (keys.zipIdx start) = some (start + place) := by
  induction keys generalizing start place with
  | nil => simp at found
  | cons first rest ih =>
    rw [List.nodup_cons] at distinct
    rw [List.zipIdx_cons, lookIn]
    cases place with
    | zero =>
      obtain rfl : first = key := by simpa using found
      simp
    | succ place =>
      rw [List.getElem?_cons_succ] at found
      have other : first ≠ key := by
        rintro rfl
        exact distinct.1 (List.mem_of_getElem? found)
      rw [if_neg other, ih distinct.2 (start + 1) found, Nat.add_assoc, Nat.add_comm 1]

end Table

namespace Program

structure Numbers (p : Program) (labels : Labels) (blocks : List BlockRef) : Prop where
  entries : labels.entries = (blocks.map p.blockId).zipIdx
  distinct : (blocks.map p.blockId).Nodup
  labeled : ∀ b ∈ blocks, p.blockId b ≠ 0

theorem Numbers.size {p : Program} {labels : Labels} {blocks : List BlockRef} (h : p.Numbers labels blocks) :
    labels.size = blocks.length := by
  rw [Table.size, h.entries, List.length_zipIdx, List.length_map]

theorem Numbers.get {p : Program} {labels : Labels} {blocks : List BlockRef} (h : p.Numbers labels blocks)
    {place : Nat} {b : BlockRef} (found : blocks[place]? = some b) :
    labels.get? (p.blockId b) = some place := by
  have key : (blocks.map p.blockId)[place]? = some (p.blockId b) := by rw [List.getElem?_map, found]; rfl
  have looked := Table.lookIn_zipIdx h.distinct 0 key
  rw [Nat.zero_add, ← h.entries] at looked
  exact looked

theorem Numbers.exists_number {p : Program} {labels : Labels} {blocks : List BlockRef} (h : p.Numbers labels blocks)
    {b : BlockRef} (member : b ∈ blocks) :
    ∃ number, labels.get? (p.blockId b) = some number ∧ blocks[number]? = some b := by
  obtain ⟨number, found⟩ := List.mem_iff_getElem?.mp member
  exact ⟨number, h.get found, found⟩

/-- Blocks with the same number are the same. -/
theorem Numbers.unique {p : Program} {labels : Labels} {blocks : List BlockRef} (h : p.Numbers labels blocks)
    {b c : BlockRef} (first : b ∈ blocks) (second : c ∈ blocks)
    (same : labels.get? (p.blockId b) = labels.get? (p.blockId c)) : b = c := by
  obtain ⟨number, named, found⟩ := h.exists_number first
  obtain ⟨number', named', found'⟩ := h.exists_number second
  obtain rfl : number = number' := Option.some.inj (named.symm.trans (same.trans named'))
  exact Option.some.inj (found.symm.trans found')

theorem Numbers.nodup {p : Program} {labels : Labels} {blocks : List BlockRef} (h : p.Numbers labels blocks) :
    blocks.Nodup :=
  List.Pairwise.of_map _ (fun _ _ differ same => differ (congrArg p.blockId same)) h.distinct

theorem Numbers.add {p : Program} {f : FuncRef} {labels labels' : Labels} {blocks : List BlockRef} {b : BlockRef}
    (h : p.Numbers labels blocks) (labeled : p.labelBlock f labels b = .ok labels') :
    p.Numbers labels' (blocks ++ [b]) := by
  unfold labelBlock at labeled
  dsimp only at labeled
  split at labeled
  · cases labeled
  split at labeled
  · cases labeled
  next nonzero absent =>
    obtain rfl := Except.ok.inj labeled
    have none : labels.get? (p.blockId b) = none := by
      simpa [Table.contains] using absent
    -- A label that is listed already would have been found in the table.
    have fresh : p.blockId b ∉ blocks.map p.blockId := by
      intro again
      obtain ⟨place, inside, same⟩ := List.mem_iff_getElem.mp again
      rw [List.getElem_map] at same
      rw [List.length_map] at inside
      have found := h.get (List.getElem?_eq_getElem inside)
      rw [same, none] at found
      cases found
    constructor
    · rw [Table.entries_set_of_none _ none, h.entries, h.size, List.map_append, List.zipIdx_append]
      simp
    · rw [List.map_append, List.nodup_append]
      refine ⟨h.distinct, List.pairwise_singleton _ _, ?_⟩
      rintro id old _ new rfl
      obtain rfl := List.mem_singleton.mp new
      exact fresh old
    · intro c member
      rcases List.mem_append.mp member with old | new
      · exact h.labeled c old
      · obtain rfl := List.mem_singleton.mp new
        exact nonzero

def tracedBlocks (p : Program) (tour : Tour) : List BlockRef :=
  tour.visited.flatMap fun f => (p.function f).blocks

def Traced (p : Program) (b : BlockRef) : Prop :=
  ∃ f, p.Reachable f ∧ b ∈ (p.function f).blocks

/-- The labels number the blocks of a tour that goes from the entry points to its end. -/
structure Traces (p : Program) (labels : Labels) (tour : Tour) : Prop where
  toured : p.entryTour = .ok tour
  whole : tour.missing = none
  numbers : p.Numbers labels (p.tracedBlocks tour)

theorem Traces.mem_iff {p : Program} {labels : Labels} {tour : Tour} (h : p.Traces labels tour) {b : BlockRef} :
    b ∈ p.tracedBlocks tour ↔ p.Traced b := by
  unfold tracedBlocks Traced
  simp only [List.mem_flatMap, mem_visited_iff h.toured h.whole]

/-- If the numbering succeeds, then so does the tour, and the traced blocks are numbered in its order. -/
theorem blockLabels_ok {p : Program} {labels : Labels} (labeled : p.blockLabels = .ok labels) :
    ∃ tour, p.Traces labels tour := by
  obtain ⟨tour, toured, labeled⟩ := except_bind_ok_iff.mp labeled
  obtain ⟨last, visited, ended⟩ := except_bind_ok_iff.mp labeled
  have whole : tour.missing = none ∧ last = labels := by
    split at ended
    · cases ended
    next none => exact ⟨none, Except.ok.inj ended⟩
  obtain ⟨whole, rfl⟩ := whole
  refine ⟨tour, toured, whole, ?_⟩
  -- The blocks of the functions before, then those of this one.
  let blocks (fs : List FuncRef) : List BlockRef := fs.flatMap fun f => (p.function f).blocks
  refine except_foldlM_ok (fun done labels => p.Numbers labels (blocks done)) visited ?_ ?_
  · exact ⟨rfl, List.nodup_nil, nofun⟩
  · intro done f rest labels labels' _ held labeled
    have own := except_foldlM_ok (fun own labels => p.Numbers labels (blocks done ++ own)) labeled
      (by rwa [List.append_nil]) fun own b _ _ _ _ held labeled => by
        rw [← List.append_assoc]
        exact held.add labeled
    have split : blocks (done ++ [f]) = blocks done ++ (p.function f).blocks := by
      simp only [blocks, List.flatMap_append, List.flatMap_cons, List.flatMap_nil, List.append_nil]
    rwa [split]

end Program

end BlockTally
