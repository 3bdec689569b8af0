import BlockTally.Facts.Uses
import Mathlib.Data.List.Nodup
import Mathlib.Data.List.Perm.Basic

/-! The index of uses, as a description of the instructions that were recorded.

An index of a list of instructions knows, for each id, the last one of them that defines it and all their uses of
it. The order in which the uses were found is not part of the description: instructions are recorded when they are
added, and again when they change, and both may differ from the order in which a module lists them.
-/

set_option autoImplicit false

namespace BlockTally

open scoped List

def Instruction.usesAt (i : Instruction) (r : InstRef) (v : Value) : List Use :=
  (i.useSites.filter fun site => site.1 = v).map fun site => ⟨r, site.2⟩

def Instruction.defines (i : Instruction) (v : Value) : Bool :=
  i.hasResult && decide (Value.int i.resultId = v)

theorem Instruction.user_of_mem_usesAt {i : Instruction} {r : InstRef} {v : Value} {use : Use}
    (member : use ∈ i.usesAt r v) : use.user = r := by
  obtain ⟨_, -, rfl⟩ := List.mem_map.mp member
  rfl

/-- An id is used at as many places as it is listed among the used ids. -/
theorem Instruction.length_usesAt (i : Instruction) (r : InstRef) (v : Value) :
    (i.usesAt r v).length = i.usedIds.count v := by
  rw [usesAt, List.length_map, ← List.countP_eq_length_filter, ← map_fst_useSites, List.count_eq_countP,
    List.countP_map]
  exact List.countP_congr fun site _ => by simp

theorem Instruction.defines_congr {i j : Instruction} (same : i.resultId = j.resultId) : i.defines = j.defines := by
  unfold defines hasResult
  rw [same]

/-! ### Definitions -/

def lastDefinition (inst : InstRef → Instruction) (refs : List InstRef) (v : Value) : Option InstRef :=
  (refs.filter fun r => (inst r).defines v).getLast?

section
variable {inst inst' : InstRef → Instruction} {refs front middle back : List InstRef} {r : InstRef} {v : Value}

theorem lastDefinition_append : lastDefinition inst (front ++ back) v =
    (lastDefinition inst back v).or (lastDefinition inst front v) := by
  unfold lastDefinition
  rw [List.filter_append, List.getLast?_append]

theorem lastDefinition_singleton :
    lastDefinition inst [r] v = if (inst r).defines v then some r else none := by
  unfold lastDefinition
  rw [List.filter_singleton]
  split <;> simp_all

theorem lastDefinition_congr (same : ∀ r ∈ refs, (inst' r).resultId = (inst r).resultId) :
    lastDefinition inst' refs v = lastDefinition inst refs v := by
  unfold lastDefinition
  rw [List.filter_congr fun r member => by rw [Instruction.defines_congr (same r member)]]

/-- Instructions may change places with others that define other ids. -/
theorem lastDefinition_exchange
    (apart : ∀ r ∈ middle, ∀ s ∈ back, (inst r).defines v = true → (inst s).defines v = false) :
    lastDefinition inst (front ++ middle ++ back) v = lastDefinition inst (front ++ back ++ middle) v := by
  simp only [lastDefinition_append]
  cases found : lastDefinition inst middle v with
  | none => rfl
  | some r =>
    obtain ⟨member, defines⟩ := List.mem_filter.mp (List.mem_of_getLast? found)
    have none : back.filter (fun s => (inst s).defines v) = [] :=
      List.filter_eq_nil_iff.mpr fun s among => by simp [apart r member s among defines]
    simp [lastDefinition, none]

end

namespace Uses

variable {u u' : Uses} {r : InstRef} {i : Instruction} {v : Value} {ids : List Value}

/-! ### What the steps of recording do -/

@[simp] theorem definition?_recordDefinition :
    (u.recordDefinition r i).definition? v = if i.defines v then some r else u.definition? v := by
  unfold recordDefinition
  split
  next result => simp [definition?, Table.get?_set, Instruction.defines, result]
  next none => simp [Instruction.defines, none]

@[simp] theorem usesOf_recordDefinition : (u.recordDefinition r i).usesOf v = u.usesOf v := by
  unfold recordDefinition
  split <;> rfl

@[simp] theorem recorded_recordDefinition : (u.recordDefinition r i).recorded = u.recorded := by
  unfold recordDefinition
  split <;> rfl

theorem usesOf_dropUses (id : Value) : (u.dropUses r id).usesOf v =
    if id = v then (u.usesOf v).filter fun use => use.user ≠ r else u.usesOf v := by
  simp only [dropUses, usesOf, Table.get?_set]
  split
  next same => rw [same]; rfl
  next => rfl

theorem foldl_dropUses (ids : List Value) (u : Uses) :
    let dropped := ids.foldl (fun u id => u.dropUses r id) u
    dropped.definitions = u.definitions ∧ dropped.recorded = u.recorded ∧
      ∀ v, dropped.usesOf v = if v ∈ ids then (u.usesOf v).filter fun use => use.user ≠ r else u.usesOf v := by
  induction ids generalizing u with
  | nil => exact ⟨rfl, rfl, fun _ => by simp⟩
  | cons id rest ih =>
    obtain ⟨definitions, recorded, uses⟩ := ih (u.dropUses r id)
    refine ⟨definitions, recorded, fun v => ?_⟩
    simp only [List.foldl_cons, uses, usesOf_dropUses, List.mem_cons]
    by_cases here : id = v
    · by_cases again : v ∈ rest <;> simp [here, again, List.filter_filter]
    · simp [here, Ne.symm here]

theorem usesOf_addUse (id : Value) (use : Use) :
    (u.addUse id use).usesOf v = if id = v then u.usesOf v ++ [use] else u.usesOf v := by
  simp only [addUse, usesOf, Table.get?_set]
  split
  next same => rw [same]; rfl
  next => rfl

theorem foldl_addUse (sites : List (Value × Option Nat)) (u : Uses) :
    let added := sites.foldl (fun u site => u.addUse site.1 ⟨r, site.2⟩) u
    added.definitions = u.definitions ∧ added.recorded = u.recorded ∧
      ∀ v, added.usesOf v =
        u.usesOf v ++ (sites.filter fun site => site.1 = v).map fun site => ⟨r, site.2⟩ := by
  induction sites generalizing u with
  | nil => exact ⟨rfl, rfl, fun _ => by simp⟩
  | cons site rest ih =>
    obtain ⟨definitions, recorded, uses⟩ := ih (u.addUse site.1 ⟨r, site.2⟩)
    refine ⟨definitions, recorded, fun v => ?_⟩
    simp only [List.foldl_cons, uses, usesOf_addUse]
    by_cases here : site.1 = v <;> simp [here]

def Linked (u : Uses) : Prop :=
  ∀ v, ∀ use ∈ u.usesOf v, ∃ ids, u.recorded.get? use.user = some ids ∧ v ∈ ids

theorem clearUses_spec (linked : u.Linked) :
    (u.clearUses r).definitions = u.definitions ∧
      (∀ s, s ≠ r → (u.clearUses r).recorded.get? s = u.recorded.get? s) ∧
      ∀ v, (u.clearUses r).usesOf v = (u.usesOf v).filter fun use => use.user ≠ r := by
  -- No use by the instruction is found at an id that it was not recorded with.
  have keep (v : Value) (elsewhere : ∀ ids, u.recorded.get? r = some ids → v ∉ ids) :
      u.usesOf v = (u.usesOf v).filter fun use => use.user ≠ r := by
    refine (List.filter_eq_self.mpr fun use member => ?_).symm
    obtain ⟨ids, recorded, among⟩ := linked v use member
    rw [decide_eq_true_eq]
    rintro rfl
    exact elsewhere ids recorded among
  unfold clearUses
  split
  next none => exact ⟨rfl, fun _ _ => rfl, fun v => keep v fun ids recorded => by rw [none] at recorded; cases recorded⟩
  next ids found =>
    obtain ⟨definitions, recorded, uses⟩ := foldl_dropUses (r := r) ids u
    refine ⟨definitions, fun s other => ?_, fun v => ?_⟩
    · simp only [Table.get?_erase, recorded, Ne.symm other, if_false]
    · refine (uses v).trans ?_
      split
      · rfl
      next absent => exact keep v fun ids' recorded => by rwa [Option.some.inj (recorded.symm.trans found)]

theorem recordUses_spec (linked : u.Linked) :
    (∀ v, (u.recordUses r i).definition? v = u.definition? v) ∧ (u.recordUses r i).Linked ∧
      ∀ v, (u.recordUses r i).usesOf v = (u.usesOf v).filter (fun use => use.user ≠ r) ++ i.usesAt r v := by
  obtain ⟨definitions, recorded, uses⟩ := clearUses_spec (r := r) linked
  obtain ⟨definitions', recorded', uses'⟩ := foldl_addUse (r := r) i.useSites (u.clearUses r)
  have all (v : Value) :
      (u.recordUses r i).usesOf v = (u.usesOf v).filter (fun use => use.user ≠ r) ++ i.usesAt r v := by
    rw [← uses v]
    exact uses' v
  have noted (s : InstRef) : (u.recordUses r i).recorded.get? s =
      if r = s then some (i.useSites.map Prod.fst) else (u.clearUses r).recorded.get? s := by
    simp only [recordUses, Table.get?_set, recorded']
  refine ⟨fun v => congrArg (Table.get? · v) (definitions'.trans definitions), fun v use member => ?_, all⟩
  rw [all, List.mem_append] at member
  rcases member with old | new
  · obtain ⟨among, other⟩ := List.mem_filter.mp old
    have other : use.user ≠ r := by simpa using other
    rw [noted, if_neg other.symm, recorded _ other]
    exact linked v use among
  · obtain ⟨site, among, rfl⟩ := List.mem_map.mp new
    obtain ⟨listed, at_id⟩ := List.mem_filter.mp among
    refine ⟨_, (noted r).trans (if_pos rfl), List.mem_map.mpr ⟨site, listed, ?_⟩⟩
    simpa using at_id

/-! ### Indexes of lists -/

structure Covers (u : Uses) (inst : InstRef → Instruction) (refs : List InstRef) : Prop where
  linked : u.Linked
  uses : ∀ v, u.usesOf v ~ refs.flatMap fun r => (inst r).usesAt r v

structure Indexes (u : Uses) (inst : InstRef → Instruction) (refs : List InstRef) : Prop
    extends u.Covers inst refs where
  definition : ∀ v, u.definition? v = lastDefinition inst refs v

/-- The indexes know the same definitions, and the same uses up to their order. -/
structure Agrees (u u' : Uses) : Prop where
  definition : ∀ v, u.definition? v = u'.definition? v
  uses : ∀ v, u.usesOf v ~ u'.usesOf v

variable {inst inst' : InstRef → Instruction} {refs front middle back : List InstRef}

/-- Any two indexes of the same instructions agree. -/
theorem Indexes.agrees (h : u.Indexes inst refs) (h' : u'.Indexes inst refs) : u.Agrees u' where
  definition v := (h.definition v).trans (h'.definition v).symm
  uses v := (h.uses v).trans (h'.uses v).symm

theorem Covers.congr (h : u.Covers inst refs) (same : ∀ r ∈ refs, inst' r = inst r) : u.Covers inst' refs where
  linked := h.linked
  uses v := by
    rw [List.flatMap_congr fun r member => by rw [same r member]]
    exact h.uses v

theorem Covers.perm {refs' : List InstRef} (h : u.Covers inst refs) (same : refs ~ refs') : u.Covers inst refs' where
  linked := h.linked
  uses v := (h.uses v).trans (same.flatMap_right _)

theorem filter_user (v : Value) : (refs.flatMap fun s => (inst s).usesAt s v).filter (fun use => use.user ≠ r) =
    (refs.filter (· ≠ r)).flatMap fun s => (inst s).usesAt s v := by
  induction refs with
  | nil => rfl
  | cons s rest ih =>
    rw [List.flatMap_cons, List.filter_append, ih, List.filter_cons]
    by_cases same : s = r
    · have none : ((inst s).usesAt s v).filter (fun use => use.user ≠ r) = [] :=
        List.filter_eq_nil_iff.mpr fun use member => by simp [Instruction.user_of_mem_usesAt member, same]
      rw [none, if_neg (by simp [same])]
      rfl
    · have all : ((inst s).usesAt s v).filter (fun use => use.user ≠ r) = (inst s).usesAt s v :=
        List.filter_eq_self.mpr fun use member => by simp [Instruction.user_of_mem_usesAt member, same]
      rw [all, if_pos (by simp [same]), List.flatMap_cons]

/-- An instruction that is recorded is the last one, wherever it was before. -/
theorem Covers.recordUses (h : u.Covers inst refs) (others : ∀ s ∈ refs, s ≠ r → inst' s = inst s) :
    (u.recordUses r (inst' r)).Covers inst' (refs.filter (· ≠ r) ++ [r]) := by
  obtain ⟨-, linked, uses⟩ := recordUses_spec (r := r) (i := inst' r) h.linked
  refine ⟨linked, fun v => ?_⟩
  have same : (refs.filter (· ≠ r)).flatMap (fun s => (inst' s).usesAt s v) =
      (refs.filter (· ≠ r)).flatMap fun s => (inst s).usesAt s v := by
    refine List.flatMap_congr fun s member => ?_
    obtain ⟨listed, other⟩ := List.mem_filter.mp member
    rw [others s listed (by simpa using other)]
  rw [uses, List.flatMap_append, List.flatMap_singleton, same, ← filter_user v]
  exact ((h.uses v).filter _).append_right _

theorem filter_ne_of_new (new : r ∉ refs) : refs.filter (· ≠ r) = refs :=
  List.filter_eq_self.mpr fun s member => by
    rw [decide_eq_true_eq]
    rintro rfl
    exact new member

theorem new_of_nodup (distinct : (front ++ [r] ++ back).Nodup) : r ∉ front := fun old =>
  (List.nodup_append.mp (List.nodup_append.mp distinct).1).2.2 r old r (List.mem_singleton_self r) rfl

theorem Covers.recordNew (h : u.Covers inst refs) (new : r ∉ refs) :
    (u.recordUses r (inst r)).Covers inst (refs ++ [r]) := by
  have covers : (u.recordUses r (inst r)).Covers inst _ := h.recordUses fun _ _ _ => rfl
  rwa [filter_ne_of_new new] at covers

theorem Indexes.empty : Indexes {} inst [] where
  linked _ _ := nofun
  uses _ := .nil
  definition _ := rfl

theorem Indexes.congr (h : u.Indexes inst refs) (same : ∀ r ∈ refs, inst' r = inst r) : u.Indexes inst' refs where
  toCovers := h.toCovers.congr same
  definition v := (h.definition v).trans (lastDefinition_congr fun r member => by rw [same r member]).symm

/-- A new instruction is recorded. -/
theorem Indexes.record (h : u.Indexes inst refs) (new : r ∉ refs) :
    (u.record r (inst r)).Indexes inst (refs ++ [r]) := by
  have defined : (u.recordDefinition r (inst r)).Covers inst refs :=
    ⟨fun v => by simpa using h.linked v, fun v => by simpa using h.uses v⟩
  refine ⟨defined.recordNew new, fun v => ?_⟩
  rw [Uses.record, (recordUses_spec defined.linked).1, definition?_recordDefinition, h.definition,
    lastDefinition_append, lastDefinition_singleton]
  split <;> rfl

/-- An instruction that has changed is recorded again. -/
theorem Indexes.recordUses (h : u.Indexes inst refs) (distinct : refs.Nodup) (member : r ∈ refs)
    (others : ∀ s ∈ refs, s ≠ r → inst' s = inst s) (result : (inst' r).resultId = (inst r).resultId) :
    (u.recordUses r (inst' r)).Indexes inst' refs := by
  have moved : refs.filter (· ≠ r) ++ [r] ~ refs := by
    have erased : refs.filter (· ≠ r) = refs.erase r := by
      rw [distinct.erase_eq_filter]
      exact List.filter_congr fun s _ => by simp [bne, beq_eq_decide]
    rw [erased]
    exact (List.perm_append_singleton _ _).trans (List.perm_cons_erase member).symm
  refine ⟨(h.toCovers.recordUses others).perm moved, fun v => ?_⟩
  rw [(recordUses_spec h.linked).1, h.definition]
  refine (lastDefinition_congr fun s among => ?_).symm
  by_cases same : s = r
  · rw [same, result]
  · rw [others s among same]

/-- An instruction without ids does not have to be recorded. -/
theorem Indexes.silent (h : u.Indexes inst refs) (noResult : (inst r).resultId = 0)
    (noUses : (inst r).useSites = []) : u.Indexes inst (refs ++ [r]) where
  linked := h.linked
  uses v := by
    have none : (inst r).usesAt r v = [] := by simp [Instruction.usesAt, noUses]
    rw [List.flatMap_append, List.flatMap_singleton, none, List.append_nil]
    exact h.uses v
  definition v := by
    have none : (inst r).defines v = false := by simp [Instruction.defines, Instruction.hasResult, noResult]
    rw [h.definition, lastDefinition_append, lastDefinition_singleton, none]
    rfl

/-- Instructions that were recorded last may be listed before others that define other ids. -/
theorem Indexes.exchange (h : u.Indexes inst (front ++ back ++ middle))
    (apart : ∀ v, ∀ r ∈ middle, ∀ s ∈ back, (inst r).defines v = true → (inst s).defines v = false) :
    u.Indexes inst (front ++ middle ++ back) where
  toCovers := by
    refine h.toCovers.perm ?_
    rw [List.append_assoc, List.append_assoc]
    exact List.perm_append_comm.append_left front
  definition v := (h.definition v).trans (lastDefinition_exchange (apart v)).symm

theorem foldl_recordDefinition (refs : List InstRef) {u : Uses}
    (defined : ∀ v, u.definition? v = lastDefinition inst front v) :
    let u' := refs.foldl (fun (u : Uses) r => u.recordDefinition r (inst r)) u
    (∀ v, u'.definition? v = lastDefinition inst (front ++ refs) v) ∧ u'.recorded = u.recorded ∧
      ∀ v, u'.usesOf v = u.usesOf v := by
  induction refs generalizing front u with
  | nil => exact ⟨by simpa using defined, rfl, fun _ => rfl⟩
  | cons r rest ih =>
    have next (v : Value) : (u.recordDefinition r (inst r)).definition? v = lastDefinition inst (front ++ [r]) v := by
      rw [definition?_recordDefinition, lastDefinition_append, lastDefinition_singleton, defined]
      split <;> rfl
    obtain ⟨definitions, recorded, uses⟩ := ih next
    refine ⟨by simpa using definitions, recorded.trans recorded_recordDefinition, fun v => ?_⟩
    exact (uses v).trans usesOf_recordDefinition

theorem foldl_recordUses (refs : List InstRef) {u : Uses} (covers : u.Covers inst front)
    (distinct : (front ++ refs).Nodup) :
    let u' := refs.foldl (fun (u : Uses) r => u.recordUses r (inst r)) u
    u'.Covers inst (front ++ refs) ∧ ∀ v, u'.definition? v = u.definition? v := by
  induction refs generalizing front u with
  | nil => exact ⟨by simpa using covers, fun _ => rfl⟩
  | cons r rest ih =>
    rw [List.append_cons] at distinct ⊢
    obtain ⟨all, definitions⟩ := ih (covers.recordNew (new_of_nodup distinct)) distinct
    exact ⟨all, fun v => (definitions v).trans ((recordUses_spec covers.linked).1 v)⟩

/-- The index of a whole module whose instructions are all different. -/
theorem ofProgram_indexes {p : Program} (distinct : p.allInsts.Nodup) : (ofProgram p).Indexes p.inst p.allInsts := by
  have empty : Indexes {} p.inst [] := .empty
  obtain ⟨definitions, recorded, uses⟩ := foldl_recordDefinition p.allInsts empty.definition
  have start : (p.allInsts.foldl (fun (u : Uses) r => u.recordDefinition r (p.inst r)) {}).Covers p.inst [] := by
    refine ⟨fun v use member => ?_, fun v => ?_⟩
    · rw [uses] at member
      cases member
    · rw [uses]
      exact .nil
  obtain ⟨covers, kept⟩ := foldl_recordUses p.allInsts start distinct
  exact ⟨covers, fun v => (kept v).trans (definitions v)⟩

/-! ### Uses that are not overlooked -/

/-- A use of each id is known for each of the instructions, whatever else is known. -/
structure Tells (u : Uses) (inst : InstRef → Instruction) (refs : List InstRef) : Prop where
  linked : u.Linked
  told : ∀ r ∈ refs, ∀ v ∈ (inst r).usedIds, ∃ use ∈ u.usesOf v, use.user = r

theorem Tells.subset {refs' : List InstRef} (h : u.Tells inst refs) (part : refs' ⊆ refs) : u.Tells inst refs' :=
  ⟨h.linked, fun r member => h.told r (part member)⟩

theorem Tells.congr (h : u.Tells inst refs) (same : ∀ r ∈ refs, inst' r = inst r) : u.Tells inst' refs :=
  ⟨h.linked, fun r member v used => h.told r member v (same r member ▸ used)⟩

/-- An instruction is recorded as it is now, the others as before. -/
theorem Tells.recordUses (h : u.Tells inst refs) (others : ∀ s ∈ refs, s ≠ r → inst' s = inst s) :
    (u.recordUses r (inst' r)).Tells inst' (refs ++ [r]) := by
  obtain ⟨-, linked, uses⟩ := recordUses_spec (r := r) (i := inst' r) h.linked
  refine ⟨linked, fun s member v used => ?_⟩
  rw [uses]
  by_cases same : s = r
  · subst same
    rw [← Instruction.map_fst_useSites] at used
    obtain ⟨site, among, rfl⟩ := List.mem_map.mp used
    have here : (⟨s, site.2⟩ : Use) ∈ (inst' s).usesAt s site.1 :=
      List.mem_map.mpr ⟨site, List.mem_filter.mpr ⟨among, decide_eq_true rfl⟩, rfl⟩
    exact ⟨_, List.mem_append_right _ here, rfl⟩
  · have before : s ∈ refs := by simpa [same] using member
    obtain ⟨use, known, rfl⟩ := h.told s before v (others s before same ▸ used)
    exact ⟨use, List.mem_append_left _ (List.mem_filter.mpr ⟨known, decide_eq_true same⟩), rfl⟩

theorem Tells.record (h : u.Tells inst refs) (others : ∀ s ∈ refs, s ≠ r → inst' s = inst s) :
    (u.record r (inst' r)).Tells inst' (refs ++ [r]) := by
  have defined : (u.recordDefinition r (inst' r)).Tells inst refs :=
    ⟨fun v => by simpa using h.linked v, fun s member v used => by simpa using h.told s member v used⟩
  exact defined.recordUses others

/-- The index of a whole module overlooks none of its instructions, however often it lists them. -/
theorem ofProgram_tells (p : Program) : (ofProgram p).Tells p.inst p.allInsts := by
  have fold (refs front : List InstRef) (u : Uses) (h : u.Tells p.inst front) :
      (refs.foldl (fun (u : Uses) r => u.recordUses r (p.inst r)) u).Tells p.inst (front ++ refs) := by
    induction refs generalizing front u with
    | nil => rwa [List.append_nil]
    | cons r rest ih =>
      rw [List.append_cons]
      exact ih _ _ (h.recordUses fun _ _ _ => rfl)
  have empty (v : Value) : ({} : Uses).definition? v = lastDefinition p.inst [] v := rfl
  obtain ⟨-, -, uses⟩ := foldl_recordDefinition p.allInsts empty
  refine fold p.allInsts [] _ ⟨fun v use member => ?_, fun _ => nofun⟩
  rw [uses] at member
  cases member

end Uses

end BlockTally
