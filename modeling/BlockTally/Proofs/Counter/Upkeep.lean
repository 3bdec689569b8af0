import BlockTally.Counter.Run
import BlockTally.Proofs.Counter.Turns
import BlockTally.Proofs.Workspace.Upkeep

/-! Counting in a workspace whose facts follow the program.

The instructions of an increment are told to the uses before they are put into their block. Until then the uses are
those of a list that is longer than what the module lists, and the two are made equal by the insertion.
-/

set_option autoImplicit false

namespace BlockTally

open Account Contract

namespace Job

def upkeep (texts : Set Value) : Contract Job where
  moves j j' := (Workspace.upkeep texts).moves j.workspace j'.workspace
  exhausted _ := True
  refl j := (Workspace.upkeep texts).refl j.workspace
  trans := (Workspace.upkeep texts).trans

variable {α : Type} {lengths : Value → Prop} {texts : Set Value} {j j' : Job}

theorem upkeep_of_turns (h : (turns (Workspace.Turn lengths texts)).moves j j') : (upkeep texts).moves j j' :=
  Workspace.upkeep_of_steps (walk_moves_mono Workspace.Turn.step (workspace_of_turns h))

theorem upkeep_of_fails {e : Error} (h : (turns (Workspace.Turn lengths texts)).fails j e j') :
    (upkeep texts).moves j j' :=
  Workspace.upkeep_of_fails (walk_fails_mono Workspace.Turn.step (workspace_of_fails h))

theorem follows {change : Provision α} {post : α → Job → Prop}
    (h : (turns (Workspace.Turn (fun _ => True) texts)).Keeps change j post) : (upkeep texts).Keeps change j post :=
  h.into (fun _ => upkeep_of_turns) fun _ _ failed => ⟨upkeep_of_fails failed, fun _ => True.intro⟩

end Job

/-! ### Instructions on their way into a block -/

namespace Program

variable {p q : Program} {id : Id}

def Reserved (p : Program) (id : Id) : Prop :=
  id ∉ p.idsOf p.functionPart ∧ id < p.module.idBound

theorem Reserved.extend (h : p.Reserved id) (closed : p.Closed) (extended : p.Extends q) : q.Reserved id := by
  have same : q.idsOf q.functionPart = p.idsOf p.functionPart := by
    rw [extended.functionPart extended.blocks]
    exact idsOf_congr fun r member => extended.resultId (closed r (p.functionPart_subset member))
  exact ⟨same ▸ h.1, Int.lt_of_lt_of_le h.2 extended.module.bound_le⟩

section Inserted
variable {refs : List InstRef} {b : BlockRef} (gap : Nat) (h : p.Orderly) (listed : b ∈ p.listedBlocks)
  (old : b.index < p.blocks.size) (reserved : ∀ id ∈ p.idsOf refs, p.Reserved id)
include h listed old reserved

theorem Orderly.inserted (distinct : (p.allInsts ++ refs).Nodup) (held : ∀ r ∈ refs, p.Holds r) :
    (p.inserted b gap refs).Orderly := by
  obtain ⟨front, back, before, after⟩ := p.exists_split_inserted gap refs h.distinct listed old
  have same := p.allInsts_inserted_of_nodup gap refs h.distinct listed old
  refine ⟨same.nodup_iff.mpr distinct, fun r member => ?_, fun id member => ?_⟩
  · have held : p.Holds r := by
      rcases List.mem_append.mp (same.mem_iff.mp member) with listed | new
      · exact h.closed r listed
      · exact held r new
    exact Nat.lt_of_lt_of_eq held size_inserted.symm
  · have ids : (p.inserted b gap refs).idsOf (front ++ refs ++ back) = p.idsOf (front ++ refs ++ back) :=
      idsOf_congr fun r _ => by rw [inst_inserted]
    have taken := h.taken id
    rw [before, idsOf_append, List.mem_append] at taken
    rw [after, ids, idsOf_append, idsOf_append, List.mem_append, List.mem_append] at member
    rw [module_inserted]
    rcases member with (among | new) | among
    · exact taken (.inl among)
    · exact (reserved id new).2
    · exact taken (.inr among)

/-- An index that was told of the instructions of a block last is one of the module that has them in the block. -/
theorem indexes_inserted {u : Uses} (indexed : u.Indexes p.inst (p.allInsts ++ refs)) :
    u.Indexes (p.inserted b gap refs).inst (p.inserted b gap refs).allInsts := by
  obtain ⟨front, back, before, after⟩ := p.exists_split_inserted gap refs h.distinct listed old
  have inst : (p.inserted b gap refs).inst = p.inst := funext fun r => inst_inserted r
  rw [allInsts_eq, before, ← List.append_assoc] at indexed
  rw [inst, allInsts_eq, module_inserted, after, ← List.append_assoc, ← List.append_assoc]
  refine indexed.exchange fun v r new => defines_apart fun member => ?_
  obtain ⟨s, among, result, nonzero⟩ := mem_idsOf.mp member
  refine (reserved _ (mem_idsOf.mpr ⟨r, new, rfl, nonzero⟩)).1 ?_
  rw [before]
  exact mem_idsOf.mpr ⟨s, List.mem_append_right _ among, result, nonzero⟩

end Inserted

end Program

namespace Workspace

variable {w : Workspace} {texts : Set Value} {refs : List InstRef} {b : BlockRef}

/-- Instructions that the uses were told of, and that the module does not list yet. -/
structure Pending (w : Workspace) (texts : Set Value) (refs : List InstRef) : Prop where
  tracks : w.Tracks texts (w.program.allInsts ++ refs)
  distinct : (w.program.allInsts ++ refs).Nodup
  held : ∀ r ∈ refs, w.program.Holds r
  reserved : ∀ id ∈ w.program.idsOf refs, w.program.Reserved id

/-- The insertion lists what was pending. -/
theorem Pending.inserted (h : w.Pending texts refs) (gap : Nat) (listed : b ∈ w.program.listedBlocks)
    (old : b.index < w.program.blocks.size) : (w.inserted b gap refs).Tracked texts where
  orderly := h.tracks.orderly.inserted gap listed old h.reserved h.distinct h.held
  reading := h.tracks.reading.reread
    (Program.rereads_of_same Program.module_inserted fun r _ => Program.inst_inserted r)
  uses u found := Program.indexes_inserted gap h.tracks.orderly listed old h.reserved (h.tracks.uses u found)

end Workspace

namespace Job

variable {j : Job} {α : Type} {texts : Set Value}

theorem follows_takeId (h : j.workspace.Tracked texts) :
    (upkeep texts).Keeps (liftM Program.takeId : Provision Id) j fun id j' => j'.workspace.program.Reserved id := by
  have failed : (upkeep texts).Fails j .idsExhausted j := ⟨(upkeep texts).refl j, fun _ => True.intro⟩
  refine Change.After.within (Workspace.after_takeId (fun _ => failed) fun free => ?_)
  refine ⟨Workspace.upkeep_of_loses (.id free), fun member => ?_, Int.lt_succ _⟩
  exact Int.lt_irrefl _ (h.orderly.taken _ member)

/-- The results of the instructions after the address. -/
theorem follows_addOne (h : j.workspace.Tracked texts) (atomic : Bool) (counterType pointer one : Id) :
    (upkeep texts).Keeps (addOne atomic counterType pointer one) j fun rest j' =>
      ∀ i ∈ rest, i.resultId ≠ 0 → j'.workspace.program.Reserved i.resultId := by
  cases atomic with
  | true =>
    unfold addOne
    refine (follows (turns_uintConstantId _ _)).seq fun scope j₁ move₁ => ?_
    have h₁ := move₁.2 h
    refine (follows (turns_uintConstantId _ _)).seq fun semantics j₂ move₂ => ?_
    refine (follows_takeId (move₂.2 h₁)).bind fun result j₃ _ reserved => Keeps.pure fun i member _ => ?_
    obtain rfl := List.mem_singleton.mp member
    exact reserved
  | false =>
    unfold addOne
    refine (follows_takeId h).bind fun value j₁ move₁ first => ?_
    have h₁ := move₁.2 h
    refine (follows_takeId h₁).bind fun sum j₂ move₂ second => Keeps.pure fun i member result => ?_
    -- The id of the value was taken first and is still reserved when the sum has its own.
    have first := first.extend h₁.orderly.closed move₂.1
    rw [Increment.loadAddStore_eq] at member
    simp only [List.mem_cons, List.not_mem_nil, or_false] at member
    rcases member with rfl | rfl | rfl
    · exact first
    · exact second
    · exact absurd rfl result

/-- Either new instructions are pending, or the facts follow the program as before. -/
def Makes (texts : Set Value) (change : Provision (List InstRef)) (j : Job) : Prop :=
  Change.After change j
    (fun refs j' => j.workspace.program.Extends j'.workspace.program ∧ j'.workspace.Pending texts refs)
    fun _ j' => j.workspace.program.Extends j'.workspace.program ∧ j'.workspace.Tracked texts

theorem Makes.bind {first : Provision α} {next : α → Provision (List InstRef)} {post : α → Job → Prop}
    (h : j.workspace.Tracked texts) (before : (upkeep texts).Keeps first j post)
    (rest : ∀ a j', (upkeep texts).moves j j' → post a j' → Makes texts (next a) j') :
    Makes texts (first >>= next) j := by
  refine Change.After.bind (Change.After.mono before (fun a j' held => ?_) fun _ j' held => ⟨held.1.1, held.1.2 h⟩)
  refine Change.After.mono (rest a j' held.1 held.2) (fun refs j'' after => ?_) fun _ j'' after => ?_
  · exact ⟨held.1.1.trans after.1, after.2⟩
  · exact ⟨held.1.1.trans after.1, after.2⟩

theorem follows_recordAll (refs : List InstRef) {listed : List InstRef} (h : j.workspace.Tracks texts listed)
    (distinct : (listed ++ refs).Nodup) :
    Change.After (refs.forM fun r => (liftM (Workspace.record r) : Provision Unit)) j
      (fun _ j' => j'.workspace.program = j.workspace.program ∧ j'.workspace.Tracks texts (listed ++ refs))
      fun _ _ => False := by
  induction refs generalizing listed j with
  | nil => exact .pure ⟨rfl, by rwa [List.append_nil]⟩
  | cons r rest ih =>
    rw [List.append_cons] at distinct ⊢
    refine .bind (.within (.modify (.mono (ih ⟨h.orderly, ⟨h.reading.annotations, h.reading.features⟩, ?_⟩ distinct)
      (fun _ _ held => held) fun _ _ none => none)))
    intro u found
    obtain ⟨u, known, rfl⟩ := Option.map_eq_some_iff.mp found
    exact (h.uses u known).record (Uses.new_of_nodup distinct)

def making (texts : Set Value) : Contract Job where
  moves j j' := (upkeep texts).moves j j' ∧ j'.workspace.program.allInsts = j.workspace.program.allInsts
  exhausted _ := True
  refl j := ⟨(upkeep texts).refl j, rfl⟩
  trans first second := ⟨(upkeep texts).trans first.1 second.1, second.2.trans first.2⟩

theorem after_newInsts (insts : List Instruction) :
    Change.After (insts.mapM fun i => (liftM (Program.newInst i) : Provision InstRef)) j
      (fun refs j' => (making texts).moves j j' ∧ refs.map j'.workspace.program.inst = insts ∧
        (∀ r ∈ refs, j.workspace.program.instructions.size ≤ r.index ∧ j'.workspace.program.Holds r) ∧ refs.Nodup)
      fun _ j' => (making texts).moves j j' := by
  have make (i : Instruction) (j : Job) :
      (making texts).Keeps (liftM (Program.newInst i) : Provision InstRef) j fun _ _ => True :=
    Change.After.within (Workspace.after_newInst
      ⟨⟨⟨⟨Program.grows_made _ _, rfl⟩, fun h => h.made i⟩, rfl⟩, True.intro⟩)
  have moves :
      (making texts).Keeps (insts.mapM fun i => (liftM (Program.newInst i) : Provision InstRef)) j fun _ _ => True :=
    Keeps.mapM insts fun i _ j => make i j
  have fresh := @keeps_newInsts False insts j
  refine Change.After.mono (moves.and fresh) ?_ fun _ _ held => held.1.1
  rintro refs j' ⟨⟨move, -⟩, -, same, new, distinct, -⟩
  exact ⟨move, same, new, distinct⟩

/-- The instructions of an increment, once all that it refers to is declared. -/
theorem makes_assemble (h : j.workspace.Tracked texts) (atomic : Bool) (o : Increment.Operands) :
    Makes texts (assemble atomic o) j := by
  unfold assemble
  refine Makes.bind h (follows_takeId h) fun pointer j₁ move₁ taken => ?_
  have h₁ := move₁.2 h
  refine Makes.bind h₁ (follows_addOne h₁ atomic _ _ _) fun rest j₂ move₂ added => ?_
  have h₂ := move₂.2 h₁
  refine Change.After.bind (Change.After.mono (after_newInsts _) ?_ fun _ j₃ move₃ => ⟨move₃.1.1, move₃.1.2 h₂⟩)
  rintro refs j₃ ⟨⟨move₃, listed⟩, insts, new, distinct⟩
  have h₃ := move₃.2 h₂
  -- The instructions are new, so none of them is listed anywhere yet.
  have all : (j₃.workspace.program.allInsts ++ refs).Nodup := by
    refine List.nodup_append.mpr ⟨h₃.orderly.distinct, distinct, fun r member s among => ?_⟩
    rintro rfl
    rw [listed] at member
    exact Nat.not_lt.mpr (new r among).1 (h₂.orderly.closed r member)
  refine Change.After.bind (Change.After.mono (follows_recordAll refs h₃ all) ?_ fun _ _ none => none.elim)
  rintro _ j₄ ⟨program, tracks⟩
  have extended : j₂.workspace.program.Extends j₄.workspace.program := program ▸ move₃.1
  refine Change.After.pure ⟨extended, program.symm ▸ tracks, program.symm ▸ all, ?_, fun id own => ?_⟩
  · rw [program]
    exact fun r member => (new r member).2
  · obtain ⟨r, member, rfl, result⟩ := Program.mem_idsOf.mp own
    have made : j₄.workspace.program.inst r ∈
        Increment.address o.pointerType pointer o.buffer o.member o.index :: rest := by
      rw [program, ← insts]
      exact List.mem_map_of_mem member
    rcases List.mem_cons.mp made with address | later
    · rw [address]
      exact (taken.extend h₁.orderly.closed move₂.1).extend h₂.orderly.closed extended
    · exact (added _ later result).extend h₂.orderly.closed extended

theorem makes_increment (h : j.workspace.Tracked texts) (atomic : Bool) (traceIndex : Int) :
    Makes texts (increment atomic traceIndex) j := by
  have assembled (o : Increment.Operands) (j' : Job)
      (move : (turns (Workspace.Turn (fun _ => True) texts)).moves j j') :
      Change.After (assemble atomic o) j'
        (fun refs j'' => j.workspace.program.Extends j''.workspace.program ∧ j''.workspace.Pending texts refs)
        fun _ j'' => j.workspace.program.Extends j''.workspace.program ∧ j''.workspace.Tracked texts := by
    obtain ⟨extended, tracked⟩ := upkeep_of_turns move
    refine Change.After.mono (makes_assemble (tracked h) atomic o) (fun refs j'' after => ?_) fun _ j'' after => ?_
    · exact ⟨extended.trans after.1, after.2⟩
    · exact ⟨extended.trans after.1, after.2⟩
  refine after_increment .any (fun _ j' failed => ?_) assembled
  obtain ⟨extended, tracked⟩ := upkeep_of_fails failed
  exact ⟨extended, tracked h⟩

end Job

/-! ### Blocks and functions -/

namespace Run

open Change

variable {σ : Type} {texts : Set Value} {r : Run σ} {atomic : Bool} {b : BlockRef} {blocks : List BlockRef}

structure Follows (texts : Set Value) (blocks : List BlockRef) (r : Run σ) : Prop where
  tracked : r.job.workspace.Tracked texts
  listed : r.program.listedBlocks = blocks

theorem after_instrumentBlock_follows (h : r.Follows texts blocks) (member : b ∈ blocks) :
    After (instrumentBlock atomic b) r (fun _ => Follows texts blocks) fun _ => Follows texts blocks := by
  unfold instrumentBlock
  refine .bind_get ?_
  dsimp only
  split
  · exact .pure h
  next behind =>
    have old : b.index < r.program.blocks.size := Program.index_lt_of_body (Program.body_ne_nil behind)
    split
    · exact .throw h
    next traceIndex _ =>
      have kept {j : Job} (extended : r.program.Extends j.workspace.program) :
          j.workspace.program.listedBlocks = blocks := extended.listedBlocks.trans h.listed
      refine .bind (.within (.mono (Job.makes_increment h.tracked atomic traceIndex) ?_ ?_))
      · rintro refs j ⟨extended, pending⟩
        have listed : b ∈ j.workspace.program.listedBlocks := kept extended ▸ member
        have inside : b.index < j.workspace.program.blocks.size := extended.blocks ▸ old
        refine .bind (.within (.within (.within (Program.after_insertInsts (.bind (.modify (.pure ?_)))))))
        exact ⟨pending.inserted _ listed inside, Program.listedBlocks_inserted.trans (kept extended)⟩
      · rintro e j ⟨extended, tracked⟩
        exact ⟨tracked, kept extended⟩

theorem after_instrumentFunction_follows {f : FuncRef} (atomic : Bool) (h : r.job.workspace.Tracked texts)
    (listed : f ∈ r.program.module.functions) : After (instrumentFunction atomic f) r
      (fun _ => Follows texts r.program.listedBlocks) fun _ => Follows texts r.program.listedBlocks := by
  have all : ∀ b ∈ (r.program.function f).blocks, b ∈ r.program.listedBlocks :=
    fun b member => Program.mem_listedBlocks.mpr ⟨f, listed, member⟩
  unfold instrumentFunction
  refine .bind_get (After.foldlM (fun _ _ => Follows texts r.program.listedBlocks) ⟨h, rfl⟩ ?_)
  intro done b rest changed r' split held
  have member : b ∈ (r.program.function f).blocks := split ▸ List.mem_append_right _ (List.mem_cons_self ..)
  refine .bind (.mono (after_instrumentBlock_follows held (all b member)) (fun _ _ after => .pure after) ?_)
  exact fun _ _ after => after

end Run

end BlockTally
