import BlockTally.Proofs.Program.Building
import Mathlib.Data.List.Induction

/-! Which block an instruction is in, as blocks list it and as it records it itself.

The two records are kept up to date one after the other. When an instruction is to leave a block that does not list it,
the request fails, but the instruction has forgotten its own block by then. Nothing else tells the records apart: an
instruction that a block lists does not record it exactly if such a request went wrong and no later one succeeded.
-/

set_option autoImplicit false

namespace BlockTally.Program

inductive Move where
  | add (b : BlockRef) (r : InstRef)
  | insert (b : BlockRef) (position : Int) (refs : List InstRef)
  | remove (b : BlockRef) (r : InstRef)
  deriving DecidableEq, Repr

def Move.run : Move → Edit Unit
  | add b r => addInst b r
  | insert b position refs => insertAt b position refs
  | remove b r => removeInst b r

def afterMove (p : Program) (m : Move) : Program :=
  Change.finalState (m.run p)

def afterMoves (p : Program) (moves : List Move) : Program :=
  moves.foldl afterMove p

def Free (p : Program) (r : InstRef) : Prop :=
  p.Holds r ∧ ∀ b, r ∉ p.body b

/-- A block takes only instructions that are in no block, each once. Removals are not restricted. -/
def Allows (p : Program) : Move → Prop
  | .add b r => b.index < p.blocks.size ∧ p.Free r
  | .insert b _ refs => b.index < p.blocks.size ∧ refs.Nodup ∧ ∀ r ∈ refs, p.Free r
  | .remove .. => True

def AllowsAll (p : Program) : List Move → Prop
  | [] => True
  | m :: rest => p.Allows m ∧ (p.afterMove m).AllowsAll rest

def Vacant (p : Program) : Prop :=
  (∀ block ∈ p.blocks.items.toList, block.body = []) ∧ ∀ placed ∈ p.instructions.items.toList, placed.block = none

instance (p : Program) : Decidable p.Vacant :=
  inferInstanceAs (Decidable ((∀ block ∈ p.blocks.items.toList, block.body = []) ∧
    ∀ placed ∈ p.instructions.items.toList, placed.block = none))

variable {p q : Program} {m : Move} {moves : List Move} {b c : BlockRef} {r s : InstRef}

theorem afterMoves_append (p : Program) (moves : List Move) (m : Move) :
    p.afterMoves (moves ++ [m]) = (p.afterMoves moves).afterMove m :=
  List.foldl_append

theorem allowsAll_append {p : Program} :
    p.AllowsAll (moves ++ [m]) ↔ p.AllowsAll moves ∧ (p.afterMoves moves).Allows m := by
  induction moves generalizing p with
  | nil => exact and_comm
  | cons first rest ih => exact (and_congr_right fun _ => ih).trans and_assoc.symm

/-! ### What a move does -/

structure Puts (p : Program) (b : BlockRef) (refs : List InstRef) (q : Program) : Prop where
  listed : (q.body b).Perm (refs ++ p.body b)
  others : ∀ c ≠ b, q.body c = p.body c
  recorded : ∀ r ∈ refs, q.blockOf? r = some b
  kept : ∀ r ∉ refs, q.blockOf? r = p.blockOf? r

/-- The instruction records no block, and the given block does not list it once more. -/
structure Drops (p : Program) (b : BlockRef) (r : InstRef) (q : Program) : Prop where
  listed : q.body b = (p.body b).erase r
  others : ∀ c ≠ b, q.body c = p.body c
  recorded : q.blockOf? r = none
  kept : ∀ s ≠ r, q.blockOf? s = p.blockOf? s

theorem puts_inserted {gap : Nat} {refs : List InstRef} (inside : b.index < p.blocks.size)
    (held : ∀ r ∈ refs, p.Holds r) : p.Puts b refs (p.inserted b gap refs) where
  listed := by
    rw [body, block_inserted inside]
    refine (List.perm_append_comm.append_right _).trans ?_
    rw [List.append_assoc, List.take_append_drop]
  others c other := by rw [body, block_inserted_of_ne other, body]
  recorded r member := blockOf_inserted member (held r member)
  kept _ absent := blockOf_inserted_of_not_mem absent

theorem blockOf_place_none (p : Program) (r : InstRef) : (p.place r none).blockOf? r = none := by
  simp only [blockOf?, place, Arena.get_update, true_and]
  split
  next => rfl
  next outside =>
    rw [Arena.get, Array.getElem?_eq_none (Nat.le_of_not_lt outside)]
    rfl

def removed (p : Program) (b : BlockRef) (r : InstRef) : Program :=
  (p.place r none).changeBlock b fun block => { block with body := block.body.erase r }

theorem removeInst_of_mem (listed : r ∈ p.body b) : removeInst b r p = .ok () (p.removed b r) := by
  have found : ((p.place r none).body b).contains r = true := List.contains_iff_mem.mpr listed
  have placed : (modify fun p => p.place r none : Edit Unit) p = .ok () (p.place r none) := rfl
  rw [removeInst, Change.bind_of_ok placed, Change.get_bind, if_pos found]
  rfl

/-- A request that fails leaves all blocks as they were, but the instruction records none any more. -/
theorem removeInst_of_not_mem (absent : r ∉ p.body b) :
    removeInst b r p = .error (.fault .notInBlock) (p.place r none) := by
  have missing : ¬((p.place r none).body b).contains r = true := fun found => absent (List.contains_iff_mem.mp found)
  have placed : (modify fun p => p.place r none : Edit Unit) p = .ok () (p.place r none) := rfl
  rw [removeInst, Change.bind_of_ok placed, Change.get_bind, if_neg missing]
  rfl

theorem body_removed (p : Program) (b : BlockRef) (r : InstRef) (c : BlockRef) :
    (p.removed b r).body c = if c = b then (p.body b).erase r else p.body c := by
  have blocks : (p.place r none).blocks = p.blocks := rfl
  simp only [body, block, removed, changeBlock, Arena.get_update, blocks]
  split
  next both =>
    rw [if_pos (congrArg BlockRef.mk both.1.symm)]
  next other =>
    split
    next same =>
      subst same
      -- A name that stands for no block stands for the default one, which lists nothing.
      have outside : ¬c.index < p.blocks.size := fun inside => other ⟨rfl, inside⟩
      rw [Arena.get, Array.getElem?_eq_none (Nat.le_of_not_lt outside)]
      rfl
    next => rfl

theorem drops_afterMove (p : Program) (b : BlockRef) (r : InstRef) : p.Drops b r (p.afterMove (.remove b r)) := by
  by_cases listed : r ∈ p.body b
  · rw [afterMove, Move.run, removeInst_of_mem listed]
    exact ⟨(p.body_removed b r b).trans (if_pos rfl), fun c other => (p.body_removed b r c).trans (if_neg other),
      p.blockOf_place_none r, fun _ => p.blockOf_place none⟩
  · rw [afterMove, Move.run, removeInst_of_not_mem listed]
    exact ⟨(List.erase_of_not_mem listed).symm, fun _ _ => rfl, p.blockOf_place_none r, fun _ => p.blockOf_place none⟩

/-- Every allowed move puts free instructions into a block or drops one. -/
theorem afterMove_cases (allowed : p.Allows m) :
    (∃ b refs, refs.Nodup ∧ (∀ r ∈ refs, p.Free r) ∧ p.Puts b refs (p.afterMove m) ∧ ∀ c s, m ≠ .remove c s) ∨
      ∃ b r, m = .remove b r ∧ p.Drops b r (p.afterMove m) := by
  cases m with
  | add b r =>
    obtain ⟨inside, free⟩ := allowed
    have put : p.Puts b [r] (p.inserted b (p.body b).length [r]) :=
      puts_inserted inside (List.forall_mem_singleton.mpr free.1)
    have added : Change.After (addInst b r) p (fun _ => p.Puts b [r]) fun _ => p.Puts b [r] := after_addInst put
    exact .inl ⟨b, [r], List.nodup_singleton r, List.forall_mem_singleton.mpr free, added.finalState, nofun⟩
  | insert b position refs =>
    obtain ⟨inside, distinct, free⟩ := allowed
    exact .inl ⟨b, refs, distinct, free, puts_inserted inside fun r member => (free r member).1, nofun⟩
  | remove b r => exact .inr ⟨b, r, rfl, p.drops_afterMove b r⟩

theorem Puts.mem {refs : List InstRef} (h : p.Puts b refs q) : s ∈ q.body c ↔ c = b ∧ s ∈ refs ∨ s ∈ p.body c := by
  by_cases same : c = b
  · rw [same, h.listed.mem_iff, List.mem_append]
    simp only [true_and]
  · rw [h.others c same]
    simp only [same, false_and, false_or]

theorem Drops.mem (h : p.Drops b r q) (once : (p.body b).Nodup) : s ∈ q.body c ↔ s ∈ p.body c ∧ ¬(c = b ∧ s = r) := by
  by_cases same : c = b
  · rw [same, h.listed, once.mem_erase_iff, and_comm]
    simp only [true_and, ne_eq]
  · rw [h.others c same]
    simp only [same, false_and, not_false_eq_true, and_true]

/-! ### What moves preserve -/

/-- Blocks list their instructions once and share none, and the block that an instruction records lists it. -/
structure Resident (p : Program) : Prop where
  once : ∀ b, (p.body b).Nodup
  apart : ∀ r b c, r ∈ p.body b → r ∈ p.body c → b = c
  recorded : ∀ r b, p.blockOf? r = some b → r ∈ p.body b

theorem Vacant.body_eq (h : p.Vacant) (b : BlockRef) : p.body b = [] := by
  rw [body, block, Arena.get]
  cases found : p.blocks.items[b.index]? with
  | none => rfl
  | some block => exact h.1 block (Array.mem_toList_iff.mpr (Array.mem_of_getElem? found))

theorem Vacant.blockOf_eq (h : p.Vacant) (r : InstRef) : p.blockOf? r = none := by
  rw [blockOf?, Arena.get]
  cases found : p.instructions.items[r.index]? with
  | none => rfl
  | some placed => exact h.2 placed (Array.mem_toList_iff.mpr (Array.mem_of_getElem? found))

theorem Vacant.resident (h : p.Vacant) : p.Resident where
  once b := h.body_eq b ▸ List.nodup_nil
  apart _ b _ listed := absurd (h.body_eq b ▸ listed) List.not_mem_nil
  recorded r _ found := absurd ((h.blockOf_eq r).symm.trans found) nofun

theorem Puts.resident {refs : List InstRef} (h : p.Puts b refs q) (old : p.Resident) (distinct : refs.Nodup)
    (free : ∀ r ∈ refs, p.Free r) : q.Resident where
  once c := by
    by_cases same : c = b
    · rw [same, h.listed.nodup_iff]
      exact List.nodup_append'.mpr ⟨distinct, old.once b, fun r new listed => (free r new).2 b listed⟩
    · exact h.others c same ▸ old.once c
  apart r c d first second := by
    rcases h.mem.mp first with ⟨rfl, new⟩ | first
    · rcases h.mem.mp second with ⟨rfl, _⟩ | second
      · rfl
      · exact absurd second ((free r new).2 d)
    · rcases h.mem.mp second with ⟨rfl, new⟩ | second
      · exact absurd first ((free r new).2 c)
      · exact old.apart r c d first second
  recorded r c found := by
    by_cases new : r ∈ refs
    · exact h.mem.mpr (.inl ⟨Option.some.inj (found.symm.trans (h.recorded r new)), new⟩)
    · exact h.mem.mpr (.inr (old.recorded r c ((h.kept r new).symm.trans found)))

theorem Drops.resident (h : p.Drops b r q) (old : p.Resident) : q.Resident where
  once c := by
    by_cases same : c = b
    · exact same ▸ h.listed ▸ (old.once b).erase r
    · exact h.others c same ▸ old.once c
  apart s c d first second :=
    old.apart s c d ((h.mem (old.once b)).mp first).1 ((h.mem (old.once b)).mp second).1
  recorded s c found := by
    have other : s ≠ r := by
      rintro rfl
      cases h.recorded.symm.trans found
    exact (h.mem (old.once b)).mpr ⟨old.recorded s c ((h.kept s other).symm.trans found), fun both => other both.2⟩

theorem Resident.afterMove (h : p.Resident) (allowed : p.Allows m) : (p.afterMove m).Resident := by
  rcases afterMove_cases allowed with ⟨b, refs, distinct, free, puts, -⟩ | ⟨b, r, -, drops⟩
  · exact puts.resident h distinct free
  · exact drops.resident h

/-! ### Instructions that forgot their block -/

/-- A block lists the instruction, which does not record the block. -/
def Astray (p : Program) (r : InstRef) : Prop :=
  ∃ b, r ∈ p.body b ∧ p.blockOf? r ≠ some b

/-- The instruction is to leave a block that does not list it, while another one does. -/
def Move.Misses (m : Move) (p : Program) (r : InstRef) : Prop :=
  ∃ b, m = .remove b r ∧ r ∉ p.body b ∧ ∃ c, r ∈ p.body c

def Move.Takes (m : Move) (p : Program) (r : InstRef) : Prop :=
  ∃ b, m = .remove b r ∧ r ∈ p.body b

/-- A move missed the instruction, and none has taken it since. -/
def Strayed (p : Program) (moves : List Move) (r : InstRef) : Prop :=
  ∃ before m since, moves = before ++ m :: since ∧ m.Misses (p.afterMoves before) r ∧
    ∀ first m' rest, since = first ++ m' :: rest → ¬m'.Takes (p.afterMoves (before ++ m :: first)) r

theorem strayed_append (p : Program) (moves : List Move) (m : Move) (r : InstRef) :
    p.Strayed (moves ++ [m]) r ↔
      m.Misses (p.afterMoves moves) r ∨ p.Strayed moves r ∧ ¬m.Takes (p.afterMoves moves) r := by
  constructor
  · rintro ⟨before, m', since, split, misses, kept⟩
    -- Either the last move is the one that misses, or it is among those since.
    rcases List.eq_nil_or_concat' since with rfl | ⟨since, last, rfl⟩
    · obtain ⟨rfl, same⟩ := List.append_inj' split rfl
      obtain rfl := List.singleton_inj.mp same
      exact .inl misses
    · rw [← List.cons_append, ← List.append_assoc] at split
      obtain ⟨rfl, same⟩ := List.append_inj' split rfl
      obtain rfl := List.singleton_inj.mp same
      refine .inr ⟨⟨before, m', since, rfl, misses, fun first m'' rest inner => ?_⟩, kept since m [] rfl⟩
      exact kept first m'' (rest ++ [m]) (by rw [inner, List.append_assoc, List.cons_append])
  · rintro (misses | ⟨⟨before, m', since, rfl, misses, kept⟩, stays⟩)
    · refine ⟨moves, m, [], rfl, misses, fun first m' rest split => ?_⟩
      exact absurd split.symm (List.append_ne_nil_of_right_ne_nil _ (List.cons_ne_nil _ _))
    · refine ⟨before, m', since ++ [m], by rw [List.append_assoc, List.cons_append], misses,
        fun first m'' rest split => ?_⟩
      rcases List.eq_nil_or_concat' rest with rfl | ⟨rest, last, rfl⟩
      · obtain ⟨rfl, same⟩ := List.append_inj' split rfl
        obtain rfl := List.singleton_inj.mp same
        exact stays
      · rw [← List.cons_append, ← List.append_assoc] at split
        exact kept first m'' rest (List.append_inj' split rfl).1

theorem Puts.astray {refs : List InstRef} (h : p.Puts b refs q) (free : ∀ r ∈ refs, p.Free r) :
    q.Astray s ↔ p.Astray s := by
  by_cases new : s ∈ refs
  · constructor
    · rintro ⟨c, listed, differ⟩
      rcases h.mem.mp listed with ⟨rfl, -⟩ | old
      · exact absurd (h.recorded s new) differ
      · exact absurd old ((free s new).2 c)
    · rintro ⟨c, listed, -⟩
      exact absurd listed ((free s new).2 c)
  · simp only [Astray, h.mem, new, and_false, false_or, h.kept s new]

theorem Move.misses_remove : (remove b r).Misses p s ↔ s = r ∧ s ∉ p.body b ∧ ∃ c, s ∈ p.body c := by
  constructor
  · rintro ⟨c, same, missed⟩
    obtain ⟨rfl, rfl⟩ := Move.remove.inj same
    exact ⟨rfl, missed⟩
  · rintro ⟨rfl, missed⟩
    exact ⟨b, rfl, missed⟩

theorem Move.takes_remove : (remove b r).Takes p s ↔ s = r ∧ s ∈ p.body b := by
  constructor
  · rintro ⟨c, same, taken⟩
    obtain ⟨rfl, rfl⟩ := Move.remove.inj same
    exact ⟨rfl, taken⟩
  · rintro ⟨rfl, taken⟩
    exact ⟨b, rfl, taken⟩

theorem Drops.astray (h : p.Drops b r q) (old : p.Resident) :
    q.Astray s ↔ (Move.remove b r).Misses p s ∨ p.Astray s ∧ ¬(Move.remove b r).Takes p s := by
  rw [Move.misses_remove, Move.takes_remove]
  by_cases same : s = r
  · subst same
    simp only [Astray, h.mem (old.once b), h.recorded, true_and, and_true]
    constructor
    · rintro ⟨c, ⟨listed, other⟩, -⟩
      exact .inl ⟨fun here => other (old.apart s c b listed here), c, listed⟩
    · rintro (⟨missed, c, listed⟩ | ⟨⟨c, listed, -⟩, missed⟩) <;>
        exact ⟨c, ⟨listed, fun here => missed (here ▸ listed)⟩, nofun⟩
  · simp only [Astray, h.mem (old.once b), h.kept s same, same, and_false, false_and, not_false_eq_true, and_true,
      false_or]

theorem Resident.astray_afterMove (h : p.Resident) (allowed : p.Allows m) :
    (p.afterMove m).Astray s ↔ m.Misses p s ∨ p.Astray s ∧ ¬m.Takes p s := by
  rcases afterMove_cases allowed with ⟨b, refs, -, free, puts, other⟩ | ⟨b, r, rfl, drops⟩
  · have misses : ¬m.Misses p s := fun ⟨c, same, _⟩ => other c s same
    have takes : ¬m.Takes p s := fun ⟨c, same, _⟩ => other c s same
    simp only [puts.astray free, misses, takes, false_or, not_false_eq_true, and_true]
  · exact drops.astray h

/-- An allowed history from vacant blocks, step by step from its end. -/
theorem resident_afterMoves (vacant : p.Vacant) (allowed : p.AllowsAll moves) :
    (p.afterMoves moves).Resident ∧ ∀ r, (p.afterMoves moves).Astray r ↔ p.Strayed moves r := by
  induction moves using List.reverseRecOn with
  | nil =>
    refine ⟨vacant.resident, fun r => iff_of_false ?_ ?_⟩
    · rintro ⟨b, listed, -⟩
      exact List.not_mem_nil (vacant.body_eq b ▸ listed)
    · rintro ⟨before, m, since, split, -⟩
      exact absurd split.symm (List.append_ne_nil_of_right_ne_nil _ (List.cons_ne_nil _ _))
  | append_singleton earlier last ih =>
    obtain ⟨before, now⟩ := allowsAll_append.mp allowed
    obtain ⟨resident, astray⟩ := ih before
    rw [afterMoves_append]
    refine ⟨resident.afterMove now, fun r => ?_⟩
    rw [resident.astray_afterMove now, astray, strayed_append]

/-- Blocks and instructions agree on where each instruction is, but for those that a request to leave another block has
missed since they were put where they are. Such a request fails, leaves all blocks and what other instructions record,
and makes the instruction forget its block. -/
theorem residence_of_moves (p : Program) (moves : List Move) (vacant : p.Vacant) (allowed : p.AllowsAll moves) :
    let q := p.afterMoves moves
    (∀ b, (q.body b).Nodup) ∧ (∀ r b c, r ∈ q.body b → r ∈ q.body c → b = c) ∧
    (∀ r b, q.blockOf? r = some b ↔ r ∈ q.body b ∧ ¬p.Strayed moves r) ∧
    (∀ r, p.Strayed moves r → q.blockOf? r = none ∧ ∃ b, r ∈ q.body b) ∧
    ∀ b r, (r ∈ q.body b → removeInst b r q = .ok () (q.removed b r)) ∧
      (r ∉ q.body b → removeInst b r q = .error (.fault .notInBlock) (q.place r none) ∧
        (∀ c, (q.place r none).body c = q.body c) ∧ (q.place r none).blockOf? r = none ∧
        ∀ s ≠ r, (q.place r none).blockOf? s = q.blockOf? s) := by
  obtain ⟨resident, astray⟩ := resident_afterMoves vacant allowed
  refine ⟨resident.once, resident.apart, fun r b => ⟨fun found => ?_, fun ⟨listed, home⟩ => ?_⟩, fun r strayed => ?_,
    fun b r => ⟨removeInst_of_mem, fun absent =>
      ⟨removeInst_of_not_mem absent, fun _ => rfl, blockOf_place_none _ r, fun s => blockOf_place _ none⟩⟩⟩
  · refine ⟨resident.recorded r b found, fun strayed => ?_⟩
    obtain ⟨c, listed, differ⟩ := (astray r).mpr strayed
    exact differ (resident.apart r b c (resident.recorded r b found) listed ▸ found)
  · by_contra differ
    exact home ((astray r).mp ⟨b, listed, differ⟩)
  · obtain ⟨b, listed, differ⟩ := (astray r).mpr strayed
    refine ⟨Option.eq_none_iff_forall_ne_some.mpr fun c found => differ ?_, b, listed⟩
    exact resident.apart r c b (resident.recorded r c found) listed ▸ found

/-- Two blocks that list nothing, and two instructions besides the labels. -/
def cleared : Program where
  instructions := ⟨#[⟨{ opcode := .label, resultId := 1 }, none⟩, ⟨{ opcode := .label, resultId := 2 }, none⟩,
    ⟨{ opcode := .iAdd, typeId := 3, resultId := 4 }, none⟩, ⟨{ opcode := .ret }, none⟩]⟩
  blocks := ⟨#[{ label := ⟨0⟩ }, { label := ⟨1⟩ }]⟩

theorem cleared_vacant : cleared.Vacant := by decide

theorem cleared_free {r : InstRef} (held : cleared.Holds r) : cleared.Free r :=
  ⟨held, fun b listed => List.not_mem_nil (cleared_vacant.body_eq b ▸ listed)⟩

/-- Of two instructions in a block, the one that was to leave the other block has strayed. -/
theorem residence_of_moves_sample :
    let moves : List Move := [.insert ⟨0⟩ (-1) [⟨2⟩, ⟨3⟩], .remove ⟨1⟩ ⟨3⟩]
    cleared.Vacant ∧ cleared.AllowsAll moves ∧ ¬cleared.Strayed moves ⟨2⟩ ∧ cleared.Strayed moves ⟨3⟩ := by
  intro moves
  have allowed : cleared.AllowsAll moves := by
    refine ⟨⟨by decide, by decide, fun r member => cleared_free ?_⟩, trivial, trivial⟩
    rcases List.mem_pair.mp member with rfl | rfl <;> decide
  have records := (residence_of_moves cleared moves cleared_vacant allowed).2.2.1
  refine ⟨cleared_vacant, allowed, ((records ⟨2⟩ ⟨0⟩).mp (by decide)).2, ?_⟩
  by_contra home
  exact absurd ((records ⟨3⟩ ⟨0⟩).mpr ⟨by decide, home⟩) (by decide)

/-- An instruction is put into one block and is to leave another one. The request fails, and yet the instruction does
not record the block any more that still lists it. -/
theorem not_recorded_of_missed :
    let moves : List Move := [.add ⟨0⟩ ⟨3⟩, .remove ⟨1⟩ ⟨3⟩]
    let before := cleared.afterMove (.add ⟨0⟩ ⟨3⟩)
    let after := cleared.afterMoves moves
    cleared.Vacant ∧ cleared.AllowsAll moves ∧ before.blockOf? ⟨3⟩ = some ⟨0⟩ ∧
      (Move.remove ⟨1⟩ ⟨3⟩).run before = .error (.fault .notInBlock) after ∧
      ⟨3⟩ ∈ after.body ⟨0⟩ ∧ after.blockOf? ⟨3⟩ ≠ some ⟨0⟩ :=
  ⟨cleared_vacant, ⟨⟨by decide, cleared_free (by decide)⟩, trivial, trivial⟩, by decide, rfl, by decide, by decide⟩

end BlockTally.Program
