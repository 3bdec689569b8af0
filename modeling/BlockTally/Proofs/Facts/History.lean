import BlockTally.Proofs.Facts.Uses
import Mathlib.Data.List.Induction

/-! The index of uses after any history.

Between two calls an instruction may change in any way, so a history pairs every call with the instruction as it is
at that time. The uses that an index knows are a snapshot: of each instruction as its uses were last recorded, unless
they were taken out since. Definitions are not followed in this way, so that an instruction with a new result id
remains the definition of its old one.
-/

set_option autoImplicit false

namespace BlockTally

/-- The places where an instruction uses an id: as its type, then as operands in order. -/
def Instruction.placesOf (i : Instruction) (v : Value) : List (Option Nat) :=
  (if i.hasType ∧ Value.int i.typeId = v then [none] else []) ++
    ((List.range i.operands.length).filter fun k =>
      i.operands[k]?.any fun operand => operand.isId && decide (operand.value = v)).map some

/-- Numbered entries that pass a test, and the numbers where entries pass it. -/
theorem map_snd_filter_zipIdx {α : Type} (test : α → Bool) (entries : List α) :
    (entries.zipIdx.filter fun entry => test entry.1).map Prod.snd =
      (List.range entries.length).filter fun k => entries[k]?.any test := by
  induction entries using List.reverseRecOn with
  | nil => rfl
  | append_singleton front last ih =>
    have before : (List.range front.length).filter (fun k => (front ++ [last])[k]?.any test) =
        (List.range front.length).filter fun k => front[k]?.any test :=
      List.filter_congr fun k inside => by rw [List.getElem?_append_left (List.mem_range.mp inside)]
    rw [List.zipIdx_append, List.filter_append, List.map_append, ih, List.length_append, List.length_singleton,
      List.range_succ, List.filter_append, before]
    cases passes : test last <;> simp [passes]

theorem Instruction.usesAt_eq (i : Instruction) (r : InstRef) (v : Value) :
    i.usesAt r v = (i.placesOf v).map (Use.mk r) := by
  have operands : ((i.operands.zipIdx.filter fun entry => entry.1.isId).map
        fun entry => (entry.1.value, some entry.2)).filter (fun site => decide (site.1 = v)) =
      (i.operands.zipIdx.filter fun entry => entry.1.isId && decide (entry.1.value = v)).map
        fun entry => (entry.1.value, some entry.2) := by
    rw [List.filter_map, List.filter_filter]
    exact congrArg _ (List.filter_congr fun entry _ => Bool.and_comm ..)
  rw [usesAt, useSites, List.filter_append, operands, placesOf, List.map_append, List.map_append,
    ← map_snd_filter_zipIdx (fun operand => operand.isId && decide (operand.value = v)) i.operands]
  simp only [List.map_map]
  congr 1
  by_cases typed : i.hasType = true <;> by_cases here : Value.int i.typeId = v <;> simp [typed, here]

namespace Uses

inductive Act where
  | definition
  | uses
  | both
  | clear
  | forget
  deriving DecidableEq, Repr

def Act.records : Act → Bool
  | uses | both => true
  | definition | clear | forget => false

def Act.replaces : Act → Bool
  | uses | both | clear | forget => true
  | definition => false

/-- A call, with the instruction as it is at that time. -/
structure Notice where
  act : Act
  user : InstRef
  seen : Instruction
  deriving DecidableEq, Repr

def notice (u : Uses) (n : Notice) : Uses :=
  match n.act with
  | .definition => u.recordDefinition n.user n.seen
  | .uses => u.recordUses n.user n.seen
  | .both => u.record n.user n.seen
  | .clear => u.clearUses n.user
  | .forget => u.forget n.user n.seen

def opened : Option Program → Uses
  | none => {}
  | some p => ofProgram p

def after (start : Option Program) (history : List Notice) : Uses :=
  history.foldl notice (opened start)

def opening : Option Program → List Notice
  | none => []
  | some p => p.allInsts.map (fun r => ⟨.definition, r, p.inst r⟩) ++ p.allInsts.map fun r => ⟨.uses, r, p.inst r⟩

theorem after_eq (start : Option Program) (history : List Notice) :
    after start history = (opening start ++ history).foldl notice {} := by
  cases start with
  | none => rfl
  | some p =>
    simp only [opening, after, opened, ofProgram, List.foldl_append, List.foldl_map]
    rfl

/-! ### The uses -/

/-- The calls that the known uses come from: the uses that a call recorded are there until a later call about the
same instruction replaces them. -/
def standing : List Notice → List Notice
  | [] => []
  | n :: later =>
    if n.act.records ∧ ∀ m ∈ later, m.user = n.user → m.act.replaces = false then n :: standing later
    else standing later

variable {u : Uses} {history : List Notice} {n : Notice}

/-- A further call takes out what stood for its instruction, and may stand itself. -/
theorem standing_append_singleton : standing (history ++ [n]) =
    (standing history).filter (fun m => !(n.act.replaces && m.user == n.user)) ++
      if n.act.records then [n] else [] := by
  induction history with
  | nil => cases recorded : n.act.records <;> simp [standing, recorded]
  | cons m later ih =>
    have still : (∀ k ∈ later ++ [n], k.user = m.user → k.act.replaces = false) ↔
        (∀ k ∈ later, k.user = m.user → k.act.replaces = false) ∧
          (!(n.act.replaces && m.user == n.user)) = true := by
      simp only [List.forall_mem_append, List.forall_mem_singleton]
      refine and_congr_right fun _ => ?_
      cases n.act.replaces <;> simp [eq_comm (a := n.user)]
    rw [List.cons_append, standing, standing, ih]
    simp only [still]
    by_cases stood : m.act.records = true ∧ ∀ k ∈ later, k.user = m.user → k.act.replaces = false
    · rw [if_pos stood, List.filter_cons]
      by_cases kept : (!(n.act.replaces && m.user == n.user)) = true
      · rw [if_pos ⟨stood.1, stood.2, kept⟩, if_pos kept, List.cons_append]
      · rw [if_neg fun all => kept all.2.2, if_neg kept]
    · rw [if_neg stood, if_neg fun all => stood ⟨all.1, all.2.1⟩]

theorem Act.replaces_of_records {act : Act} (records : act.records = true) : act.replaces = true := by
  cases act <;> first | rfl | cases records

/-- No two calls about one instruction stand. -/
theorem nodup_users_standing : ((standing history).map Notice.user).Nodup := by
  induction history using List.reverseRecOn with
  | nil => exact .nil
  | append_singleton front n ih =>
    rw [standing_append_singleton, List.map_append]
    have part : (((standing front).filter fun m => !(n.act.replaces && m.user == n.user)).map Notice.user).Nodup :=
      ih.sublist (List.filter_sublist.map _)
    cases records : n.act.records with
    | false => simpa using part
    | true =>
      refine List.nodup_append.mpr ⟨part, List.nodup_singleton _, fun r old s new => ?_⟩
      obtain ⟨m, among, rfl⟩ := List.mem_map.mp old
      obtain rfl := List.mem_singleton.mp new
      have other := (List.mem_filter.mp among).2
      simpa [Act.replaces_of_records records] using other

theorem usesOf_forget (r : InstRef) (i : Instruction) (v : Value) :
    (u.forget r i).usesOf v = (u.clearUses r).usesOf v := by
  unfold forget
  dsimp only
  split <;> rfl

theorem definition?_clearUses (r : InstRef) (linked : u.Linked) (v : Value) :
    (u.clearUses r).definition? v = u.definition? v :=
  congrArg (Table.get? · v) (clearUses_spec linked).1

theorem Linked.clearUses (linked : u.Linked) (r : InstRef) : (u.clearUses r).Linked := by
  obtain ⟨-, others, uses⟩ := clearUses_spec (r := r) linked
  intro v use member
  rw [uses] at member
  obtain ⟨among, other⟩ := List.mem_filter.mp member
  rw [others _ (of_decide_eq_true other)]
  exact linked v use among

theorem Linked.recordDefinition (linked : u.Linked) (r : InstRef) (i : Instruction) :
    (u.recordDefinition r i).Linked := fun v use member => by
  rw [usesOf_recordDefinition] at member
  rw [recorded_recordDefinition]
  exact linked v use member

theorem Linked.forget (linked : u.Linked) (r : InstRef) (i : Instruction) : (u.forget r i).Linked := by
  intro v use member
  rw [usesOf_forget] at member
  obtain ⟨ids, recorded, among⟩ := linked.clearUses r v use member
  refine ⟨ids, ?_, among⟩
  rw [← recorded]
  unfold Uses.forget
  dsimp only
  split <;> rfl

/-- What a call does to the uses. -/
theorem notice_spec (linked : u.Linked) : (u.notice n).Linked ∧ ∀ v, (u.notice n).usesOf v =
    (u.usesOf v).filter (fun use => !(n.act.replaces && use.user == n.user)) ++
      if n.act.records then n.seen.usesAt n.user v else [] := by
  obtain ⟨act, r, i⟩ := n
  have others (v : Value) : (u.usesOf v).filter (fun use => decide (use.user ≠ r)) =
      (u.usesOf v).filter fun use => !(true && use.user == r) :=
    List.filter_congr fun use _ => by simp [beq_eq_decide]
  cases act with
  | definition => exact ⟨linked.recordDefinition r i, fun v => by simp [notice, Act.replaces, Act.records]⟩
  | uses =>
    obtain ⟨-, kept, uses⟩ := recordUses_spec (r := r) (i := i) linked
    exact ⟨kept, fun v => (uses v).trans (congrArg (· ++ _) (others v))⟩
  | both =>
    obtain ⟨-, kept, uses⟩ := recordUses_spec (r := r) (i := i) (linked.recordDefinition r i)
    refine ⟨kept, fun v => (uses v).trans ?_⟩
    rw [usesOf_recordDefinition]
    exact congrArg (· ++ _) (others v)
  | clear =>
    refine ⟨linked.clearUses r, fun v => ((clearUses_spec linked).2.2 v).trans ?_⟩
    exact (others v).trans (List.append_nil _).symm
  | forget =>
    refine ⟨linked.forget r i, fun v => (usesOf_forget r i v).trans (((clearUses_spec linked).2.2 v).trans ?_)⟩
    exact (others v).trans (List.append_nil _).symm

theorem filter_flatMap_usesAt (test : InstRef → Bool) (calls : List Notice) (v : Value) :
    (calls.flatMap fun m => m.seen.usesAt m.user v).filter (fun use => test use.user) =
      (calls.filter fun m => test m.user).flatMap fun m => m.seen.usesAt m.user v := by
  induction calls with
  | nil => rfl
  | cons m rest ih =>
    rw [List.flatMap_cons, List.filter_append, ih, List.filter_cons]
    have own : (m.seen.usesAt m.user v).filter (fun use => test use.user) =
        (m.seen.usesAt m.user v).filter fun _ => test m.user :=
      List.filter_congr fun use member => by rw [Instruction.user_of_mem_usesAt member]
    rw [own]
    cases test m.user <;> simp

/-- The uses are those that the standing calls saw. -/
theorem foldl_notice (history : List Notice) : (history.foldl notice {}).Linked ∧
    ∀ v, (history.foldl notice {}).usesOf v =
      (standing history).flatMap fun n => n.seen.usesAt n.user v := by
  induction history using List.reverseRecOn with
  | nil => exact ⟨fun _ _ => nofun, fun _ => rfl⟩
  | append_singleton front n ih =>
    obtain ⟨linked, uses⟩ := ih
    obtain ⟨linked', uses'⟩ := notice_spec (n := n) linked
    rw [List.foldl_append]
    refine ⟨linked', fun v => (uses' v).trans ?_⟩
    rw [uses, standing_append_singleton, List.flatMap_append,
      filter_flatMap_usesAt fun r => !(n.act.replaces && r == n.user)]
    cases n.act.records <;> simp

theorem linked_after (start : Option Program) (history : List Notice) : (after start history).Linked := by
  rw [after_eq]
  exact (foldl_notice _).1

/-- The uses of each instruction stand together, so that it is listed once as a user, where they begin. -/
theorem eraseDups_flatMap_usesAt {calls : List Notice} (distinct : (calls.map Notice.user).Nodup) (v : Value) :
    ((calls.flatMap fun n => n.seen.usesAt n.user v).map Use.user).eraseDups =
      (calls.filter fun n => v ∈ n.seen.usedIds).map Notice.user := by
  induction calls with
  | nil => rfl
  | cons n rest ih =>
    obtain ⟨new, distinct⟩ := List.nodup_cons.mp distinct
    -- The first call gives as many uses as it has operands with the id, all of the same user; no later call has this
    -- user.
    have own : (n.seen.usesAt n.user v).map Use.user = List.replicate (n.seen.usedIds.count v) n.user := by
      rw [← n.seen.length_usesAt n.user v]
      exact List.eq_replicate_iff.mpr ⟨List.length_map _, fun r member => by
        obtain ⟨use, among, rfl⟩ := List.mem_map.mp member
        exact Instruction.user_of_mem_usesAt among⟩
    have others : ∀ r ∈ (rest.flatMap fun n => n.seen.usesAt n.user v).map Use.user, r ≠ n.user := by
      rintro _ member rfl
      obtain ⟨use, among, same⟩ := List.mem_map.mp member
      obtain ⟨m, listed, among⟩ := List.mem_flatMap.mp among
      rw [Instruction.user_of_mem_usesAt among] at same
      exact new (List.mem_map.mpr ⟨m, listed, same⟩)
    rw [List.flatMap_cons, List.map_append, own, List.filter_cons]
    cases uses : n.seen.usedIds.count v with
    | zero =>
      rw [if_neg (by simpa using List.count_eq_zero.mp uses)]
      exact ih distinct
    | succ more =>
      have used : v ∈ n.seen.usedIds := List.count_pos_iff.mp (by omega)
      rw [if_pos (by simpa using used), List.map_cons, ← ih distinct, List.replicate_succ, List.cons_append,
        List.eraseDups_cons, List.filter_append, List.filter_eq_nil_iff.mpr (by simp), List.nil_append,
        List.filter_eq_self.mpr fun r member => by simpa using others r member]

/-- For each id, an index lists the places where the instructions of the standing calls used it, and these
instructions as its users, in the order of these calls. -/
theorem usesOf_after (start : Option Program) (history : List Notice) (v : Value) :
    let calls := standing (opening start ++ history)
    (after start history).usesOf v = calls.flatMap (fun n => (n.seen.placesOf v).map (Use.mk n.user)) ∧
      ((after start history).usesOf v).length = (calls.flatMap fun n => n.seen.usedIds).count v ∧
      (after start history).usersOf v = (calls.filter fun n => v ∈ n.seen.usedIds).map Notice.user ∧
      (calls.map Notice.user).Nodup := by
  have uses : (after start history).usesOf v =
      (standing (opening start ++ history)).flatMap fun n => n.seen.usesAt n.user v := by
    rw [after_eq]
    exact (foldl_notice _).2 v
  refine ⟨?_, ?_, ?_, nodup_users_standing⟩
  · simp only [uses, Instruction.usesAt_eq]
  · rw [uses, List.length_flatMap, List.count_flatMap]
    simp only [Instruction.length_usesAt]
    rfl
  · rw [usersOf, uses, eraseDups_flatMap_usesAt nodup_users_standing]

-- An instruction that is recorded again comes last, with the operands that it has now.
example :
    let load (pointer : Int) : Instruction :=
      { opcode := .load, typeId := 1, resultId := 9, operands := [.ofId pointer] }
    let vector : Instruction :=
      { opcode := .typeVector, resultId := 2, operands := [.ofId (.int 1), .literal (.int 4)] }
    (after none [⟨.both, ⟨0⟩, load 7⟩, ⟨.both, ⟨1⟩, vector⟩, ⟨.uses, ⟨0⟩, load 1⟩]).usesOf (.int 1) =
      [⟨⟨1⟩, some 0⟩, ⟨⟨0⟩, none⟩, ⟨⟨0⟩, some 0⟩] := by decide

/-! ### The definitions -/

def Act.defines : Act → Bool
  | definition | both => true
  | uses | clear | forget => false

/-- Whether an instruction is no more the definition of an id after a call: there is a new definition, or it is
forgotten while it has that result id. -/
def Notice.Withdraws (n : Notice) (r : InstRef) (v : Value) : Prop :=
  n.seen.defines v = true ∧ (n.act.defines = true ∨ n.act = .forget ∧ n.user = r)

/-- A call made an instruction the definition of an id, and no later call withdrew that. -/
def Named (history : List Notice) (r : InstRef) (v : Value) : Prop :=
  ∃ n later, n :: later <:+ history ∧ n.user = r ∧ n.act.defines = true ∧ n.seen.defines v = true ∧
    ∀ m ∈ later, ¬ m.Withdraws r v

theorem named_append_singleton {r : InstRef} {v : Value} : Named (history ++ [n]) r v ↔
    n.user = r ∧ n.act.defines = true ∧ n.seen.defines v = true ∨ Named history r v ∧ ¬ n.Withdraws r v := by
  constructor
  · rintro ⟨m, later, listed, user, defines, seen, kept⟩
    obtain none | ⟨front, split, inside⟩ := List.suffix_concat_iff.mp listed
    · cases none
    cases front with
    | nil =>
      obtain ⟨rfl, rfl⟩ := List.cons.inj split
      exact .inl ⟨user, defines, seen⟩
    | cons first front =>
      obtain ⟨rfl, rfl⟩ := List.cons.inj split
      obtain ⟨before, last⟩ := List.forall_mem_append.mp kept
      exact .inr ⟨⟨_, front, inside, user, defines, seen, before⟩, last n (List.mem_singleton_self n)⟩
  · rintro (⟨user, defines, seen⟩ | ⟨⟨m, later, listed, user, defines, seen, kept⟩, last⟩)
    · exact ⟨n, [], List.suffix_append .., user, defines, seen, nofun⟩
    · refine ⟨m, later ++ [n], List.suffix_concat_iff.mpr (.inr ⟨_, rfl, listed⟩), user, defines, seen, ?_⟩
      exact List.forall_mem_append.mpr ⟨kept, List.forall_mem_singleton.mpr last⟩

theorem definition?_forget (linked : u.Linked) (r : InstRef) (i : Instruction) (v : Value) :
    (u.forget r i).definition? v =
      if i.defines v = true ∧ u.definition? v = some r then none else u.definition? v := by
  have before (w : Value) : (u.clearUses r).definition? w = u.definition? w := definition?_clearUses r linked w
  unfold forget
  simp only [before]
  split
  next known =>
    obtain ⟨result, known⟩ := known
    refine (Table.get?_erase ..).trans ?_
    by_cases here : Value.int i.resultId = v
    · subst here
      rw [if_pos rfl, if_pos ⟨by simp [Instruction.defines, result], known⟩]
    · rw [if_neg here, if_neg fun both => here (by simpa [Instruction.defines, result] using both.1)]
      exact before v
  next unknown =>
    rw [if_neg, before]
    rintro ⟨defines, known⟩
    obtain ⟨result, rfl⟩ : i.hasResult = true ∧ Value.int i.resultId = v := by
      simpa [Instruction.defines] using defines
    exact unknown ⟨result, known⟩

theorem definition?_notice (linked : u.Linked) {r : InstRef} {v : Value} : (u.notice n).definition? v = some r ↔
    n.user = r ∧ n.act.defines = true ∧ n.seen.defines v = true ∨
      u.definition? v = some r ∧ ¬ n.Withdraws r v := by
  obtain ⟨act, s, i⟩ := n
  have registered : (if i.defines v = true then some s else u.definition? v) = some r ↔
      s = r ∧ i.defines v = true ∨ u.definition? v = some r ∧ i.defines v = false := by
    cases i.defines v <;> simp
  have same (u' : Uses) (known : u'.definition? v = u.definition? v) :
      u'.definition? v = some r ↔ u.definition? v = some r := by rw [known]
  -- An act that defines takes the place of an earlier definition; forgetting takes away a definition of its own.
  cases act with
  | definition => simpa [notice, Notice.Withdraws, Act.defines] using registered
  | both =>
    rw [notice, Uses.record, (recordUses_spec (linked.recordDefinition s i)).1, definition?_recordDefinition]
    simpa [Notice.Withdraws, Act.defines] using registered
  | uses => simpa [notice, Notice.Withdraws, Act.defines] using same _ ((recordUses_spec linked).1 v)
  | clear => simpa [notice, Notice.Withdraws, Act.defines] using same _ (definition?_clearUses s linked v)
  | forget =>
    refine (Eq.congr_left (definition?_forget linked s i v)).trans ?_
    simp only [Notice.Withdraws, Act.defines]
    by_cases own : s = r
    · subst own
      cases i.defines v <;> by_cases known : u.definition? v = some s <;> simp [known]
    · have other (known : u.definition? v = some s) : u.definition? v ≠ some r := by
        rw [known]
        exact fun same => own (Option.some.inj same)
      split
      next gone => simpa [own] using other gone.2
      next => simp [own]

theorem definition?_after {start : Option Program} {r : InstRef} {v : Value} :
    (after start history).definition? v = some r ↔ Named (opening start ++ history) r v := by
  rw [after_eq]
  induction opening start ++ history using List.reverseRecOn with
  | nil =>
    refine ⟨nofun, ?_⟩
    rintro ⟨n, later, listed, -⟩
    cases List.suffix_nil.mp listed
  | append_singleton front n ih =>
    rw [List.foldl_append]
    exact (definition?_notice (foldl_notice front).1).trans ((or_congr_right (and_congr_left fun _ => ih)).trans
      named_append_singleton.symm)

/-- An instruction that was just forgotten has no uses left. It is still the definition of the ids that it was named
for under another result id, and of no id if its result id never changed. -/
theorem forget_after (start : Option Program) (history : List Notice) (r : InstRef) (i : Instruction) :
    let forgotten := (after start history).forget r i
    (∀ v, ∀ use ∈ forgotten.usesOf v, use.user ≠ r) ∧
      (∀ v, forgotten.definition? v = some r ↔ Named (opening start ++ history) r v ∧ i.defines v = false) ∧
      ((∀ n ∈ opening start ++ history, n.user = r → n.seen.resultId = i.resultId) →
        ∀ v, forgotten.definition? v ≠ some r) := by
  have linked := linked_after start history
  have remains (v : Value) : ((after start history).forget r i).definition? v = some r ↔
      Named (opening start ++ history) r v ∧ i.defines v = false := by
    rw [definition?_forget linked, ← definition?_after]
    cases i.defines v <;> simp
  refine ⟨fun v use member => ?_, remains, fun same v known => ?_⟩
  · rw [usesOf_forget, (clearUses_spec linked).2.2] at member
    exact of_decide_eq_true (List.mem_filter.mp member).2
  · obtain ⟨⟨n, later, listed, user, -, seen, -⟩, other⟩ := (remains v).mp known
    rw [Instruction.defines_congr (same n (listed.subset List.mem_cons_self) user)] at seen
    exact absurd (seen.symm.trans other) nofun

/-- A declaration that got a new result id after it was recorded still defines the old one when it is forgotten. -/
theorem not_forgotten_of_renamed :
    ¬ ∀ (start : Option Program) (history : List Notice) (r : InstRef) (i : Instruction) (v : Value),
      let forgotten := (after start history).forget r i
      forgotten.definition? v ≠ some r ∧ ∀ use ∈ forgotten.usesOf v, use.user ≠ r := fun complete =>
  (complete none [⟨.definition, ⟨0⟩, { opcode := .typeBool, resultId := 1 }⟩] ⟨0⟩
    { opcode := .typeBool, resultId := 2 } (.int 1)).1 (by decide)

end Uses

end BlockTally
