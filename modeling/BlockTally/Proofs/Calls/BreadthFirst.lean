import BlockTally.Proofs.Calls
import BlockTally.Proofs.Exhaustion
import Mathlib.Data.List.Infix
import Mathlib.Data.List.Perm.Subperm

/-! The order of a tour.

A tour goes through what its roots lead to in the order of first mention: first the roots, then what the
roots call, then what those call, and so on. So it comes to everything that fewer calls lead to before it
comes to anything that takes more.
-/

set_option autoImplicit false

namespace BlockTally

def unseen (done entries : List Value) : List Value :=
  (entries.filter (· ∉ done)).eraseDups

theorem nodup_eraseDups (entries : List Value) : entries.eraseDups.Nodup := by
  -- By induction on the length, since the rest is filtered before its repetitions are dropped.
  induction length : entries.length using Nat.strongRecOn generalizing entries with
  | _ _ ih =>
    cases entries with
    | nil => exact List.nodup_nil
    | cons entry rest =>
      have shorter := List.length_filter_le (fun other => !other == entry) rest
      rw [List.eraseDups_cons, List.nodup_cons, List.mem_eraseDups]
      rw [List.length_cons] at length
      exact ⟨by simp, ih _ (by omega) _ rfl⟩

section Unseen
variable {done entries : List Value} {id : Value}

theorem unseen_nil (entries : List Value) : unseen [] entries = entries.eraseDups := by
  simp [unseen]

theorem unseen_cons_of_mem (old : id ∈ done) : unseen done (id :: entries) = unseen done entries := by
  simp [unseen, old]

theorem unseen_cons_of_not_mem (new : id ∉ done) :
    unseen done (id :: entries) = id :: unseen (id :: done) entries := by
  unfold unseen
  rw [List.filter_cons_of_pos (by simpa using new), List.eraseDups_cons, List.filter_filter]
  congr 3
  funext other
  by_cases same : other = id <;> simp [same]

theorem unseen_append_of_done {front : List Value} (past : ∀ other ∈ front, other ∈ done) :
    unseen done (front ++ entries) = unseen done entries := by
  induction front with
  | nil => rfl
  | cons other rest ih =>
    rw [List.forall_mem_cons] at past
    rw [List.cons_append, unseen_cons_of_mem past.1, ih past.2]

theorem eraseDups_isPrefix {first second : List Value} (longer : first <+: second) :
    first.eraseDups <+: second.eraseDups := by
  obtain ⟨rest, rfl⟩ := longer
  rw [List.eraseDups_append]
  exact List.prefix_append ..

end Unseen

/-- What so many calls at most lead to from the roots, in order: the roots, then what is called by those that
fewer calls lead to. -/
def breadthFirst (callees : Value → List Value) (roots : List Value) : Nat → List Value
  | 0 => roots.eraseDups
  | calls + 1 => (roots ++ (breadthFirst callees roots calls).flatMap callees).eraseDups

section BreadthFirst
variable {callees : Value → List Value} {roots : List Value}

/-- More calls lead to more, and nothing of it comes earlier. -/
theorem breadthFirst_prefix_succ (calls : Nat) :
    breadthFirst callees roots calls <+: breadthFirst callees roots (calls + 1) := by
  induction calls with
  | zero => exact eraseDups_isPrefix (List.prefix_append ..)
  | succ calls ih => exact eraseDups_isPrefix ((List.prefix_append_right_inj roots).mpr (ih.flatMap callees))

/-- The ids are met one after the other: each is the first new one among what waits and what those before it
call. -/
def Met (callees : Value → List Value) (done waiting ids : List Value) : Prop :=
  ∀ place < ids.length,
    ids.take (place + 1) <+: unseen done (waiting ++ (ids.take place).flatMap callees)

theorem Met.nil (done waiting : List Value) : Met callees done waiting [] := by
  intro place inside
  cases inside

/-- The next id that waits is met first; what it calls waits behind the others. -/
theorem Met.cons {done waiting front rest ids : List Value} {id : Value} (fresh : id ∉ done)
    (split : waiting = front ++ id :: rest) (past : ∀ other ∈ front, other ∈ done)
    (h : Met callees (id :: done) (rest ++ callees id) ids) : Met callees done waiting (id :: ids) := by
  have next (tail : List Value) : unseen done (waiting ++ tail) = id :: unseen (id :: done) (rest ++ tail) := by
    rw [split, List.append_assoc, unseen_append_of_done past, List.cons_append, unseen_cons_of_not_mem fresh]
  intro place inside
  rw [next, List.take_succ_cons]
  refine List.cons_prefix_cons.mpr ⟨rfl, ?_⟩
  cases place with
  | zero => exact List.nil_prefix
  | succ place =>
    rw [List.take_succ_cons, List.flatMap_cons, ← List.append_assoc]
    exact h place (Nat.lt_of_succ_lt_succ inside)

/-- What is met from the roots is met in breadth-first order. -/
theorem Met.take_prefix {ids : List Value} (h : Met callees [] roots ids) (calls : Nat) :
    ids.take (calls + 1) <+: breadthFirst callees roots calls := by
  -- By induction on the calls; past the last id there is nothing more to take.
  have step (calls : Nat) (inside : calls < ids.length) :
      ids.take (calls + 1) <+: (roots ++ (ids.take calls).flatMap callees).eraseDups := by
    have met := h calls inside
    rwa [unseen_nil] at met
  induction calls with
  | zero =>
    rcases Nat.eq_zero_or_pos ids.length with none | some
    · rw [List.take_of_length_le (by omega), List.eq_nil_of_length_eq_zero none]
      exact List.nil_prefix
    · have first := step 0 some
      rwa [List.take_zero, List.flatMap_nil, List.append_nil] at first
  | succ calls ih =>
    by_cases inside : calls + 1 < ids.length
    · refine (step _ inside).trans (eraseDups_isPrefix ?_)
      exact (List.prefix_append_right_inj roots).mpr (ih.flatMap callees)
    · rw [List.take_of_length_le (by omega)] at ih ⊢
      exact ih.trans (breadthFirst_prefix_succ calls)

theorem breadthFirst_nodup (callees : Value → List Value) (roots : List Value) (calls : Nat) :
    (breadthFirst callees roots calls).Nodup := by
  cases calls <;> exact nodup_eraseDups _

theorem Met.prefix_breadthFirst {ids : List Value} (h : Met callees [] roots ids) :
    ids <+: breadthFirst callees roots ids.length := by
  have longer := h.take_prefix ids.length
  rwa [List.take_of_length_le (Nat.le_succ _)] at longer

theorem Met.nodup {ids : List Value} (h : Met callees [] roots ids) : ids.Nodup :=
  (breadthFirst_nodup ..).sublist h.prefix_breadthFirst.sublist

theorem Met.mem {ids : List Value} (h : Met callees [] roots ids) {id : Value} (member : id ∈ ids) :
    ∃ calls, id ∈ breadthFirst callees roots calls :=
  ⟨ids.length, h.prefix_breadthFirst.subset member⟩

/-- If nothing is left to meet, no calls lead to anything more. -/
theorem breadthFirst_isPrefix {ids : List Value} (finished : unseen [] (roots ++ ids.flatMap callees) = ids)
    (calls : Nat) : breadthFirst callees roots calls <+: ids := by
  rw [unseen_nil] at finished
  induction calls with
  | zero =>
    rw [← finished]
    exact eraseDups_isPrefix (List.prefix_append ..)
  | succ calls ih =>
    conv_rhs => rw [← finished]
    exact eraseDups_isPrefix ((List.prefix_append_right_inj roots).mpr (ih.flatMap callees))

/-- What was met until nothing was left is all that any calls lead to, in breadth-first order. -/
theorem Met.eq_breadthFirst {ids : List Value} (h : Met callees [] roots ids)
    (finished : unseen [] (roots ++ ids.flatMap callees) = ids) {calls : Nat} (enough : ids.length ≤ calls) :
    breadthFirst callees roots calls = ids := by
  have longer := h.take_prefix calls
  rw [List.take_of_length_le (by omega)] at longer
  exact (breadthFirst_isPrefix finished calls).eq_of_length_le longer.length_le

end BreadthFirst

/-- Nothing is met once all that waits is done. -/
theorem met_nothing {callees : Value → List Value} {done waiting : List Value}
    (all : waiting.dropWhile (· ∈ done) = []) :
    Met callees done waiting [] ∧ ((none : Option Value) = none →
      unseen done (waiting ++ [].flatMap callees) = []) := by
  refine ⟨Met.nil _ _, fun _ => ?_⟩
  rw [List.flatMap_nil, unseen_append_of_done (Calls.dropWhile_done all)]
  rfl

/-- The next id that waits can be met as the last one. -/
theorem met_last {callees : Value → List Value} {done waiting rest : List Value} {id : Value}
    (next : waiting.dropWhile (· ∈ done) = id :: rest) : Met callees done waiting [id] := by
  obtain ⟨fresh, front, split, past⟩ := Calls.dropWhile_next next
  exact Met.cons fresh split past (Met.nil _ _)

namespace Table

variable {κ υ : Type} [DecidableEq κ]

theorem mem_keys_of_get? {t : Table κ υ} {key : κ} {value : υ} (found : t.get? key = some value) : key ∈ t.keys := by
  obtain ⟨entries⟩ := t
  unfold get? at found
  unfold keys
  induction entries with
  | nil => cases found
  | cons entry rest ih =>
    obtain ⟨first, value'⟩ := entry
    rw [lookIn] at found
    rw [List.map_cons]
    split at found
    next same => exact same ▸ List.mem_cons_self ..
    next => exact List.mem_cons_of_mem _ (ih found)

end Table

def Tour.ids (p : Program) (tour : Tour) : List Value :=
  tour.visited.map p.functionKey ++ tour.missing.toList

namespace Calls

def calleesOf (calls : Calls) (id : Value) : List Value :=
  ((calls.nodes.get? id).map CallNode.callees).getD []

/-- How a tour goes on: it is at its end, it meets an id that it goes no further from, or it visits a function. -/
theorem tourFrom_cases (calls : Calls) (steps : Nat) (done waiting : List Value) :
    (waiting.dropWhile (· ∈ done) = [] ∧ calls.tourFrom steps done waiting = {}) ∨
    (∃ id rest, waiting.dropWhile (· ∈ done) = id :: rest ∧ (steps = 0 ∨ calls.nodes.get? id = none) ∧
      calls.tourFrom steps done waiting = { missing := some id }) ∨
    ∃ id rest node steps', waiting.dropWhile (· ∈ done) = id :: rest ∧ calls.nodes.get? id = some node ∧
      steps = steps' + 1 ∧ calls.tourFrom steps done waiting =
        { calls.tourFrom steps' (id :: done) (rest ++ node.callees) with
          visited := node.function :: (calls.tourFrom steps' (id :: done) (rest ++ node.callees)).visited } := by
  rw [tourFrom.eq_def calls steps done waiting]
  cases next : waiting.dropWhile (· ∈ done) with
  | nil => exact .inl ⟨rfl, by simp only [next]⟩
  | cons id rest =>
    cases found : calls.nodes.get? id with
    | none => exact .inr (.inl ⟨id, rest, rfl, .inr found, by simp only [next, found]⟩)
    | some node =>
      cases steps with
      | zero => exact .inr (.inl ⟨id, rest, rfl, .inl rfl, by simp only [next, found]⟩)
      | succ steps => exact .inr (.inr ⟨id, rest, node, steps, rfl, found, rfl, by simp only [next, found]⟩)

/-- A tour comes to the ids one after the other, until nothing is left or an id is no function. -/
theorem tourFrom_met {p : Program} {calls : Calls} (h : Describes p calls p.module.functions) (steps : Nat)
    (done waiting : List Value) :
    Met calls.calleesOf done waiting ((calls.tourFrom steps done waiting).ids p) ∧
      ((calls.tourFrom steps done waiting).missing = none →
        unseen done (waiting ++ ((calls.tourFrom steps done waiting).ids p).flatMap calls.calleesOf) =
          (calls.tourFrom steps done waiting).ids p) := by
  -- By induction on the steps. A visit puts the id among the done ones and its callees behind those that wait.
  induction steps generalizing done waiting with
  | zero =>
    rcases calls.tourFrom_cases 0 done waiting with ⟨next, tour⟩ | ⟨id, rest, next, -, tour⟩ | ⟨_, _, _, _, _, _, ⟨⟩, _⟩
    · rw [tour]
      exact met_nothing next
    · rw [tour]
      exact ⟨met_last next, nofun⟩
  | succ steps ih =>
    rcases calls.tourFrom_cases (steps + 1) done waiting with ⟨next, tour⟩ | ⟨id, rest, next, -, tour⟩ |
      ⟨id, rest, node, _, next, found, ⟨⟩, tour⟩
    · rw [tour]
      exact met_nothing next
    · rw [tour]
      exact ⟨met_last next, nofun⟩
    · obtain ⟨fresh, front, split, past⟩ := dropWhile_next next
      obtain ⟨-, -, -, key, -⟩ := h.function id node found
      have callees : calls.calleesOf id = node.callees := by simp [calleesOf, found]
      obtain ⟨met, finished⟩ := ih (id :: done) (rest ++ node.callees)
      rw [tour]
      simp only [Tour.ids, List.map_cons, key, List.cons_append]
      rw [← callees] at met finished ⊢
      refine ⟨Met.cons fresh split past met, fun whole => ?_⟩
      rw [split, List.append_assoc, unseen_append_of_done past, List.cons_append, unseen_cons_of_not_mem fresh,
        List.flatMap_cons, ← List.append_assoc]
      exact congrArg (id :: ·) (finished whole)

/-- Only functions of the graph are visited. -/
theorem tourFrom_visits {calls : Calls} {steps : Nat} {done waiting : List Value} {f : FuncRef}
    (member : f ∈ (calls.tourFrom steps done waiting).visited) :
    ∃ id node, calls.nodes.get? id = some node ∧ node.function = f := by
  induction steps generalizing done waiting with
  | zero =>
    rcases calls.tourFrom_cases 0 done waiting with ⟨-, tour⟩ | ⟨_, _, -, -, tour⟩ | ⟨_, _, _, _, _, _, ⟨⟩, _⟩ <;>
      rw [tour] at member <;> cases member
  | succ steps ih =>
    rcases calls.tourFrom_cases (steps + 1) done waiting with ⟨-, tour⟩ | ⟨_, _, -, -, tour⟩ |
      ⟨id, rest, node, _, -, found, ⟨⟩, tour⟩
    · rw [tour] at member
      cases member
    · rw [tour] at member
      cases member
    · rw [tour] at member
      rcases List.mem_cons.mp member with rfl | later
      · exact ⟨id, node, found, rfl⟩
      · exact ih later

structure Suffices (calls : Calls) (steps : Nat) (done : List Value) : Prop where
  distinct : done.Nodup
  known : done ⊆ calls.nodes.keys
  enough : calls.nodes.size ≤ steps + done.length

theorem Suffices.start (calls : Calls) : calls.Suffices calls.nodes.size [] :=
  ⟨List.nodup_nil, List.nil_subset _, Nat.le_add_right ..⟩

theorem Suffices.visit {calls : Calls} {steps : Nat} {done : List Value} (h : calls.Suffices steps done) {id : Value}
    {node : CallNode} (fresh : id ∉ done) (found : calls.nodes.get? id = some node) :
    ∃ steps', steps = steps' + 1 ∧ calls.Suffices steps' (id :: done) := by
  have distinct := List.nodup_cons.mpr ⟨fresh, h.distinct⟩
  have known := List.cons_subset.mpr ⟨Table.mem_keys_of_get? found, h.known⟩
  have enough := h.enough
  -- Without a step left, there would be one node more than there are.
  have few := (List.subperm_of_subset distinct known).length_le
  rw [List.length_cons, Table.keys, List.length_map, ← Table.size] at few
  obtain ⟨steps, rfl⟩ := Nat.exists_eq_succ_of_ne_zero (show steps ≠ 0 by omega)
  refine ⟨steps, rfl, distinct, known, ?_⟩
  rw [List.length_cons]
  omega

theorem tourFrom_end (calls : Calls) (steps : Nat) {done waiting : List Value}
    (next : waiting.dropWhile (· ∈ done) = []) : calls.tourFrom steps done waiting = {} := by
  rw [tourFrom.eq_def]
  simp only [next]

theorem tourFrom_stop {calls : Calls} (steps : Nat) {done waiting rest : List Value} {id : Value}
    (next : waiting.dropWhile (· ∈ done) = id :: rest) (unknown : calls.nodes.get? id = none) :
    calls.tourFrom steps done waiting = { missing := some id } := by
  rw [tourFrom.eq_def]
  simp only [next, unknown]

theorem Suffices.tourFrom_visit {calls : Calls} {steps : Nat} {done waiting rest : List Value} {id : Value}
    {node : CallNode} (h : calls.Suffices steps done) (next : waiting.dropWhile (· ∈ done) = id :: rest)
    (found : calls.nodes.get? id = some node) : ∃ steps' < steps, calls.Suffices steps' (id :: done) ∧
      calls.tourFrom steps done waiting = { calls.tourFrom steps' (id :: done) (rest ++ node.callees) with
        visited := node.function :: (calls.tourFrom steps' (id :: done) (rest ++ node.callees)).visited } := by
  obtain ⟨steps', rfl, after⟩ := h.visit (dropWhile_next next).1 found
  refine ⟨steps', Nat.lt_succ_self _, after, ?_⟩
  rw [tourFrom.eq_def]
  simp only [next, found]

/-- A tour with a step for each node that is not done ends at no node. -/
theorem tourFrom_missing {calls : Calls} {steps : Nat} {done waiting : List Value} (h : calls.Suffices steps done)
    {id : Value} (ended : (calls.tourFrom steps done waiting).missing = some id) : calls.nodes.get? id = none := by
  induction steps using Nat.strongRecOn generalizing done waiting with
  | _ steps ih =>
    cases next : waiting.dropWhile (· ∈ done) with
    | nil =>
      rw [tourFrom_end calls steps next] at ended
      cases ended
    | cons first rest =>
      cases found : calls.nodes.get? first with
      | none =>
        rw [tourFrom_stop steps next found] at ended
        exact Option.some.inj ended ▸ found
      | some node =>
        obtain ⟨steps', fewer, after, tour⟩ := h.tourFrom_visit next found
        rw [tour] at ended
        exact ih steps' fewer after ended

/-- Nothing ends a tour but what waits or is called on the way. -/
theorem reached_of_missing {calls : Calls} {steps : Nat} {done waiting : List Value} {reached : Value → Prop}
    (waits : ∀ id ∈ waiting, reached id)
    (calling : ∀ id node, reached id → calls.nodes.get? id = some node → ∀ called ∈ node.callees, reached called)
    {id : Value} (ended : (calls.tourFrom steps done waiting).missing = some id) : reached id := by
  induction steps generalizing done waiting with
  | zero =>
    rcases calls.tourFrom_cases 0 done waiting with ⟨-, tour⟩ | ⟨id, rest, next, -, tour⟩ | ⟨_, _, _, _, _, _, ⟨⟩, _⟩
    · rw [tour] at ended
      cases ended
    · rw [tour] at ended
      obtain rfl := Option.some.inj ended
      obtain ⟨-, front, split, -⟩ := dropWhile_next next
      exact waits id (split ▸ List.mem_append_right _ (List.mem_cons_self ..))
  | succ steps ih =>
    rcases calls.tourFrom_cases (steps + 1) done waiting with ⟨-, tour⟩ | ⟨id, rest, next, -, tour⟩ |
      ⟨id, rest, node, _, next, found, ⟨⟩, tour⟩
    · rw [tour] at ended
      cases ended
    · rw [tour] at ended
      obtain rfl := Option.some.inj ended
      obtain ⟨-, front, split, -⟩ := dropWhile_next next
      exact waits id (split ▸ List.mem_append_right _ (List.mem_cons_self ..))
    · rw [tour] at ended
      obtain ⟨-, front, split, -⟩ := dropWhile_next next
      rw [split] at waits
      -- What waits now did wait before or is called by the function that was visited.
      refine ih (fun other member => ?_) ended
      rcases List.mem_append.mp member with later | called
      · exact waits other (List.mem_append_right _ (List.mem_cons_of_mem _ later))
      · exact calling id node (waits id (List.mem_append_right _ (List.mem_cons_self ..))) found other called

end Calls

namespace Program

def FunctionsDistinct (p : Program) : Prop :=
  (p.module.functions.map p.functionId).Nodup

instance (p : Program) : Decidable p.FunctionsDistinct :=
  inferInstanceAs (Decidable (List.Nodup _))

def startIds (p : Program) : List Value :=
  p.module.entryPoints.filterMap fun r => ((p.inst r).value 1).toOption

def calledIds (p : Program) (f : FuncRef) : List Value :=
  (((p.functionBody f).filter fun r => (p.inst r).opcode = .functionCall).filterMap fun r =>
    ((p.inst r).value 0).toOption).eraseDups

def calleesOf (p : Program) (id : Value) : List Value :=
  match p.functionNamed? id with
  | some f => p.calledIds f
  | none => []

/-- The ids that so many calls at most lead to from the entry points, in breadth-first order. -/
def within (p : Program) (calls : Nat) : List Value :=
  breadthFirst p.calleesOf p.startIds calls

def InBreadthFirstOrder (p : Program) (functions : List FuncRef) : Prop :=
  (∀ f ∈ functions, f ∈ p.module.functions) ∧
    ∃ enough, ∀ calls ≥ enough, p.within calls = functions.map p.functionKey

def Misses (p : Program) (id : Value) : Prop :=
  (∃ calls, id ∈ p.within calls) ∧ p.functionNamed? id = none

variable {p : Program}

theorem functionNamed_some {id : Value} {f : FuncRef} (found : p.functionNamed? id = some f) :
    f ∈ p.module.functions ∧ p.functionKey f = id :=
  ⟨List.mem_of_find?_eq_some found, by simpa [functionKey] using List.find?_some found⟩

/-- Where ids are distinct, the first function with an id is the only one. -/
theorem Names.functionNamed (distinct : p.FunctionsDistinct) {id : Value} {f : FuncRef} (named : p.Names id f) :
    p.functionNamed? id = some f := by
  obtain ⟨before, after, split, rfl, -⟩ := named
  unfold FunctionsDistinct at distinct
  rw [split, List.map_append, List.nodup_append] at distinct
  unfold functionNamed?
  rw [split, List.find?_append, List.find?_cons_of_pos (by simp [functionKey])]
  rw [List.find?_eq_none.mpr, Option.none_or]
  intro g member same
  have same' : p.functionId g = p.functionId f := by simpa [functionKey] using same
  exact distinct.2.2 _ (List.mem_map_of_mem member) _ (List.mem_map_of_mem (List.mem_cons_self ..)) same'

theorem names_of_functionNamed (distinct : p.FunctionsDistinct) {id : Value} {f : FuncRef}
    (found : p.functionNamed? id = some f) : p.Names id f := by
  obtain ⟨member, rfl⟩ := functionNamed_some found
  obtain ⟨before, after, split⟩ := List.append_of_mem member
  refine ⟨before, after, split, rfl, fun g later same => ?_⟩
  unfold FunctionsDistinct at distinct
  rw [split, List.map_append, List.map_cons, List.nodup_append, List.nodup_cons] at distinct
  have same' : p.functionId g = p.functionId f := by simpa [functionKey] using same
  exact distinct.2.1.1 (same' ▸ List.mem_map_of_mem later)

theorem mapM_ok_eq_filterMap {α β : Type} {f : α → Except Error β} {entries : List α} {answers : List β}
    (passed : entries.mapM f = .ok answers) : answers = entries.filterMap fun a => (f a).toOption := by
  induction entries generalizing answers with
  | nil =>
    obtain rfl := Except.ok.inj passed
    rfl
  | cons a rest ih =>
    simp only [List.mapM_cons, except_bind_ok_iff] at passed
    obtain ⟨first, here, others, there, last⟩ := passed
    obtain rfl := Except.ok.inj last
    rw [List.filterMap_cons, here, ← ih there]
    rfl

theorem startIds_of_entryIds {roots : List Value} (read : p.entryIds = .ok roots) : p.startIds = roots :=
  (mapM_ok_eq_filterMap read).symm

/-- The graph of calls leads from each id to the same ids as the program. -/
theorem calleesOf_eq {calls : Calls} (distinct : p.FunctionsDistinct)
    (h : Calls.Describes p calls p.module.functions) : calls.calleesOf = p.calleesOf := by
  funext id
  unfold Calls.calleesOf calleesOf
  cases found : calls.nodes.get? id with
  | none =>
    cases named : p.functionNamed? id with
    | none => rfl
    | some f =>
      obtain ⟨member, rfl⟩ := functionNamed_some named
      have known := h.known f member
      rw [found] at known
      cases known
  | some node =>
    obtain ⟨ids, read, same⟩ := h.callees id node found
    rw [(h.names found).functionNamed distinct]
    simp only [Option.map_some, Option.getD_some, same, mapM_ok_eq_filterMap read]
    rfl

theorem toOption_eq_some {α : Type} {result : Except Error α} {a : α} (found : result.toOption = some a) :
    result = .ok a := by
  cases result with
  | ok b => exact congrArg _ (Option.some.inj found)
  | error e => cases found

/-- What the entry points lead to can be reached, as far as it is a function. -/
theorem reachable_of_within (distinct : p.FunctionsDistinct) {calls : Nat} {id : Value} {f : FuncRef}
    (member : id ∈ p.within calls) (named : p.functionNamed? id = some f) : p.Reachable f := by
  have entry {id : Value} {f : FuncRef} (start : id ∈ p.startIds) (named : p.functionNamed? id = some f) :
      p.Reachable f := by
    obtain ⟨r, listed, value⟩ := List.mem_filterMap.mp start
    exact .entry listed (toOption_eq_some value) (names_of_functionNamed distinct named)
  induction calls generalizing id f with
  | zero => exact entry (List.mem_eraseDups.mp member) named
  | succ calls ih =>
    rcases List.mem_append.mp (List.mem_eraseDups.mp member) with start | called
    · exact entry start named
    · obtain ⟨caller, earlier, among⟩ := List.mem_flatMap.mp called
      unfold calleesOf at among
      split at among
      next g found =>
        obtain ⟨r, inside, value⟩ := List.mem_filterMap.mp (List.mem_eraseDups.mp among)
        obtain ⟨inside, call⟩ := List.mem_filter.mp inside
        exact .call (ih earlier found) inside (by simpa using call) (toOption_eq_some value)
          (names_of_functionNamed distinct named)
      next => cases among

/-! ### Tours from given ids -/

def CallsFilled (p : Program) : Prop :=
  ∀ f ∈ p.module.functions, ∀ r ∈ p.functionBody f, (p.inst r).opcode = .functionCall → (p.inst r).operands ≠ []

/-- Nothing keeps the graph from being built. -/
theorem CallsFilled.graph (filled : p.CallsFilled) : ∃ calls, Calls.ofProgram p = .ok calls := by
  refine except_foldlM_isOk ({} : Calls) fun f listed calls => ?_
  obtain ⟨ids, read⟩ : ∃ ids, p.callees f = .ok ids := by
    refine except_mapM_isOk fun r member => ?_
    obtain ⟨inside, call⟩ := List.mem_filter.mp member
    exact Instruction.value_isOk (List.length_pos_iff.mpr (filled f listed r inside (by simpa using call)))
  exact ⟨_, except_bind_ok_iff.mpr ⟨ids, read, rfl⟩⟩

/-- What a tour from given ids comes to is met in order; if it ends early, then at an id that is no function. -/
structure GoesFrom (p : Program) (roots : List Value) (tour : Tour) : Prop where
  met : Met p.calleesOf [] roots (tour.ids p)
  finished : tour.missing = none → unseen [] (roots ++ (tour.ids p).flatMap p.calleesOf) = tour.ids p
  named : ∀ f ∈ tour.visited, p.functionNamed? (p.functionKey f) = some f
  missing : ∀ id, tour.missing = some id → p.functionNamed? id = none

theorem tourFrom_goesFrom (distinct : p.FunctionsDistinct) {roots : List Value} {tour : Tour}
    (toured : p.tourFrom roots = .ok tour) : p.GoesFrom roots tour := by
  obtain ⟨calls, graph, toured⟩ := except_bind_ok_iff.mp toured
  obtain rfl := Except.ok.inj toured
  have described := Calls.ofProgram_describes graph
  obtain ⟨met, finished⟩ := Calls.tourFrom_met described calls.nodes.size [] roots
  rw [calleesOf_eq distinct described] at met finished
  refine ⟨met, finished, fun f member => ?_, fun id ended => ?_⟩
  · obtain ⟨id, node, found, rfl⟩ := Calls.tourFrom_visits member
    obtain ⟨-, -, -, rfl, -⟩ := described.names found
    exact (described.names found).functionNamed distinct
  · have none := Calls.tourFrom_missing (.start _) ended
    cases named : p.functionNamed? id with
    | none => rfl
    | some f =>
      obtain ⟨member, rfl⟩ := functionNamed_some named
      have known := described.known f member
      rw [none] at known
      cases known

namespace GoesFrom

variable {roots : List Value} {tour : Tour}

theorem keys_nodup (h : p.GoesFrom roots tour) : (tour.visited.map p.functionKey).Nodup :=
  (List.nodup_append.mp h.met.nodup).1

/-- The functions of a tour have different ids, so none is visited twice. -/
theorem visited_nodup (h : p.GoesFrom roots tour) : tour.visited.Nodup :=
  List.Pairwise.of_map _ (fun _ _ differ same => differ (congrArg p.functionKey same)) h.keys_nodup

theorem listed (h : p.GoesFrom roots tour) : ∀ f ∈ tour.visited, f ∈ p.module.functions :=
  fun f member => (functionNamed_some (h.named f member)).1

end GoesFrom

/-! ### Tours from the entry points -/

abbrev GoesThrough (p : Program) (tour : Tour) : Prop :=
  p.GoesFrom p.startIds tour

theorem entryTour_goesThrough (distinct : p.FunctionsDistinct) {tour : Tour} (toured : p.entryTour = .ok tour) :
    p.GoesThrough tour := by
  obtain ⟨roots, read, toured⟩ := except_bind_ok_iff.mp toured
  obtain rfl := startIds_of_entryIds read
  exact tourFrom_goesFrom distinct toured

namespace GoesThrough

variable {tour : Tour}

theorem reachable (h : p.GoesThrough tour) (distinct : p.FunctionsDistinct) : ∀ f ∈ tour.visited, p.Reachable f := by
  intro f member
  obtain ⟨calls, among⟩ := h.met.mem (List.mem_append_left _ (List.mem_map_of_mem member))
  exact reachable_of_within distinct among (h.named f member)

theorem misses (h : p.GoesThrough tour) {id : Value} (ended : tour.missing = some id) : p.Misses id := by
  refine ⟨h.met.mem (List.mem_append_right _ ?_), h.missing id ended⟩
  rw [ended]
  exact List.mem_singleton_self id

/-- A tour that ends at no missing id visits its functions in breadth-first order. -/
theorem inBreadthFirstOrder (h : p.GoesThrough tour) (whole : tour.missing = none) :
    p.InBreadthFirstOrder tour.visited := by
  refine ⟨h.listed, tour.visited.length, fun calls enough => ?_⟩
  have ids : tour.ids p = tour.visited.map p.functionKey := by
    rw [Tour.ids, whole]
    exact List.append_nil _
  have same : p.within calls = tour.ids p :=
    h.met.eq_breadthFirst (h.finished whole) (by rwa [ids, List.length_map])
  rwa [ids] at same

end GoesThrough

end Program

end BlockTally
