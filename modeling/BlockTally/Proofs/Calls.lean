import BlockTally.Calls
import BlockTally.Proofs.Checks

/-! Tours and reachability.

A tour from the entry points that ends at no missing id visits the functions that can be reached from them
by calls, each of them once.
-/

set_option autoImplicit false

namespace BlockTally

namespace Program

/-- An id as a value, the way calls and entry points refer to a function. -/
def functionKey (p : Program) (f : FuncRef) : Value :=
  .int (p.functionId f)

/-- An id stands for the last function of the module that has it. -/
def Names (p : Program) (id : Value) (f : FuncRef) : Prop :=
  ∃ before after, p.module.functions = before ++ f :: after ∧ p.functionKey f = id ∧
    ∀ g ∈ after, p.functionKey g ≠ id

inductive Reachable (p : Program) : FuncRef → Prop where
  | entry {r : InstRef} {id : Value} {f : FuncRef} : r ∈ p.module.entryPoints →
      (p.inst r).value 1 = .ok id → p.Names id f → Reachable p f
  | call {f g : FuncRef} {r : InstRef} {id : Value} : Reachable p f → r ∈ p.functionBody f →
      (p.inst r).opcode = .functionCall → (p.inst r).value 0 = .ok id → p.Names id g → Reachable p g

theorem Names.mem {p : Program} {id : Value} {f : FuncRef} (h : p.Names id f) : f ∈ p.module.functions := by
  obtain ⟨before, after, split, -, -⟩ := h
  rw [split]
  exact List.mem_append_right _ (List.mem_cons_self ..)

/-- Only functions of the module are reached. -/
theorem Reachable.mem {p : Program} {f : FuncRef} (h : p.Reachable f) : f ∈ p.module.functions := by
  cases h with
  | entry _ _ named => exact named.mem
  | call _ _ _ _ named => exact named.mem

theorem mem_callees {p : Program} {f : FuncRef} {ids : List Value} (read : p.callees f = .ok ids) {id : Value} :
    id ∈ ids ↔ ∃ r ∈ p.functionBody f, (p.inst r).opcode = .functionCall ∧ (p.inst r).value 0 = .ok id := by
  rw [except_mem_mapM_ok read]
  simp only [List.mem_filter, decide_eq_true_eq, and_assoc]

end Program

namespace Calls

structure Describes (p : Program) (calls : Calls) (done : List FuncRef) : Prop where
  known : ∀ f ∈ done, (calls.nodes.get? (p.functionKey f)).isSome = true
  function : ∀ id node, calls.nodes.get? id = some node → ∃ before after, done = before ++ node.function :: after ∧
    p.functionKey node.function = id ∧ ∀ g ∈ after, p.functionKey g ≠ id
  callees : ∀ id node, calls.nodes.get? id = some node → ∃ ids, p.callees node.function = .ok ids ∧
    node.callees = ids.eraseDups

theorem Describes.add {p : Program} {calls calls' : Calls} {done : List FuncRef} {f : FuncRef}
    (h : Describes p calls done) (added : calls.addFunction p f = .ok calls') :
    Describes p calls' (done ++ [f]) := by
  obtain ⟨ids, read, rfl⟩ : ∃ ids, p.callees f = .ok ids ∧
      calls' = ⟨calls.nodes.set (p.functionKey f) { function := f, callees := ids.eraseDups }⟩ := by
    obtain ⟨ids, read, last⟩ := except_bind_ok_iff.mp added
    exact ⟨ids, read, (Except.ok.inj last).symm⟩
  constructor
  case known =>
    intro g member
    rw [Table.get?_set]
    split
    · rfl
    next other =>
      rcases List.mem_append.mp member with old | new
      · exact h.known g old
      · obtain rfl := List.mem_singleton.mp new
        exact absurd rfl other
  case function =>
    intro id node found
    rw [Table.get?_set] at found
    split at found
    next same =>
      obtain rfl := Option.some.inj found
      -- A function takes the place of an earlier one of its name, and none comes behind it yet.
      exact ⟨done, [], rfl, same, fun g member => absurd member List.not_mem_nil⟩
    next other =>
      obtain ⟨before, after, split, named, last⟩ := h.function id node found
      refine ⟨before, after ++ [f], by rw [split, List.append_assoc, List.cons_append], named, ?_⟩
      intro g member
      rcases List.mem_append.mp member with old | new
      · exact last g old
      · obtain rfl := List.mem_singleton.mp new
        exact other
  case callees =>
    intro id node found
    rw [Table.get?_set] at found
    split at found
    next same =>
      obtain rfl := Option.some.inj found
      exact ⟨ids, read, rfl⟩
    next other => exact h.callees id node found

theorem ofProgram_describes {p : Program} {calls : Calls} (read : ofProgram p = .ok calls) :
    Describes p calls p.module.functions :=
  except_foldlM_ok (fun done calls => Describes p calls done) read ⟨nofun, nofun, nofun⟩
    fun _ _ _ _ _ _ held added => held.add added

theorem Describes.names {p : Program} {calls : Calls} (h : Describes p calls p.module.functions) {id : Value}
    {node : CallNode} (found : calls.nodes.get? id = some node) : p.Names id node.function :=
  h.function id node found

/-- What a tour goes through, given what is done and what waits. -/
structure Covers (p : Program) (calls : Calls) (done waiting : List Value) (visited : List FuncRef) : Prop where
  distinct : (visited.map p.functionKey).Nodup
  new : ∀ f ∈ visited, p.functionKey f ∉ done
  found : ∀ f ∈ visited, ∃ node, calls.nodes.get? (p.functionKey f) = some node ∧ node.function = f
  waited : ∀ id ∈ waiting, id ∈ done ∨ id ∈ visited.map p.functionKey
  called : ∀ f ∈ visited, ∀ node, calls.nodes.get? (p.functionKey f) = some node → ∀ id ∈ node.callees,
    id ∈ done ∨ id ∈ visited.map p.functionKey
  /-- Nothing is visited that neither waits nor is called on the way. -/
  only : ∀ reached : Value → Prop, (∀ id ∈ waiting, reached id) →
    (∀ id node, reached id → calls.nodes.get? id = some node → ∀ called ∈ node.callees, reached called) →
    ∀ f ∈ visited, reached (p.functionKey f)

theorem dropWhile_done {done waiting : List Value} (all : waiting.dropWhile (· ∈ done) = []) :
    ∀ id ∈ waiting, id ∈ done := by
  induction waiting with
  | nil => exact nofun
  | cons id rest ih =>
    by_cases here : id ∈ done
    · rw [List.dropWhile_cons_of_pos (by simpa using here)] at all
      exact List.forall_mem_cons.mpr ⟨here, ih all⟩
    · rw [List.dropWhile_cons_of_neg (by simpa using here)] at all
      cases all

theorem dropWhile_next {done waiting rest : List Value} {id : Value}
    (next : waiting.dropWhile (· ∈ done) = id :: rest) :
    id ∉ done ∧ ∃ front, waiting = front ++ id :: rest ∧ ∀ other ∈ front, other ∈ done := by
  induction waiting with
  | nil => cases next
  | cons first others ih =>
    by_cases here : first ∈ done
    · rw [List.dropWhile_cons_of_pos (by simpa using here)] at next
      obtain ⟨new, front, split, past⟩ := ih next
      exact ⟨new, first :: front, by rw [split, List.cons_append], List.forall_mem_cons.mpr ⟨here, past⟩⟩
    · rw [List.dropWhile_cons_of_neg (by simpa using here)] at next
      obtain ⟨rfl, rfl⟩ := List.cons.inj next
      exact ⟨here, [], rfl, nofun⟩

theorem Covers.finished {p : Program} {calls : Calls} {done waiting : List Value}
    (past : ∀ id ∈ waiting, id ∈ done) : Covers p calls done waiting [] where
  distinct := List.nodup_nil
  new := nofun
  found := nofun
  waited id member := .inl (past id member)
  called := nofun
  only _ _ _ := nofun

/-- One more visit, and then the rest of the tour. -/
theorem Covers.visit {p : Program} {calls : Calls} {done waiting front rest : List Value} {id : Value}
    {node : CallNode} {visited : List FuncRef} (found : calls.nodes.get? id = some node)
    (key : p.functionKey node.function = id) (fresh : id ∉ done) (split : waiting = front ++ id :: rest)
    (past : ∀ other ∈ front, other ∈ done) (h : Covers p calls (id :: done) (rest ++ node.callees) visited) :
    Covers p calls done waiting (node.function :: visited) := by
  -- What the rest of the tour finds done was done before, or it is this visit.
  have seen {other : Value} (known : other ∈ id :: done ∨ other ∈ visited.map p.functionKey) :
      other ∈ done ∨ other ∈ (node.function :: visited).map p.functionKey := by
    rw [List.map_cons, key]
    rcases known with known | known
    · rcases List.mem_cons.mp known with rfl | known
      · exact .inr (List.mem_cons_self ..)
      · exact .inl known
    · exact .inr (List.mem_cons_of_mem _ known)
  constructor
  case distinct =>
    rw [List.map_cons, List.nodup_cons, key]
    refine ⟨fun again => ?_, h.distinct⟩
    obtain ⟨f, member, same⟩ := List.mem_map.mp again
    exact h.new f member (same ▸ List.mem_cons_self ..)
  case new =>
    rw [List.forall_mem_cons, key]
    exact ⟨fresh, fun f member old => h.new f member (List.mem_cons_of_mem _ old)⟩
  case found =>
    rw [List.forall_mem_cons, key]
    exact ⟨⟨node, found, rfl⟩, h.found⟩
  case waited =>
    intro other member
    rw [split] at member
    rcases List.mem_append.mp member with before | after
    · exact .inl (past other before)
    · rcases List.mem_cons.mp after with rfl | after
      · exact seen (.inl (List.mem_cons_self ..))
      · exact seen (h.waited other (List.mem_append_left _ after))
  case called =>
    rw [List.forall_mem_cons, key]
    refine ⟨fun node' found' called member => ?_, fun f member node' found' called among => ?_⟩
    · obtain rfl := Option.some.inj (found.symm.trans found')
      exact seen (h.waited called (List.mem_append_right _ member))
    · exact seen (h.called f member node' found' called among)
  case only =>
    intro reached waits calling
    have here : reached id := waits id (split ▸ List.mem_append_right _ (List.mem_cons_self ..))
    rw [List.forall_mem_cons, key]
    refine ⟨here, h.only reached (fun other member => ?_) calling⟩
    rcases List.mem_append.mp member with later | called
    · exact waits other (split ▸ List.mem_append_right _ (List.mem_cons_of_mem _ later))
    · exact calling id node here found other called

theorem tourFrom_covers {p : Program} {calls : Calls} (h : Describes p calls p.module.functions) (steps : Nat)
    (done waiting : List Value) (whole : (calls.tourFrom steps done waiting).missing = none) :
    Covers p calls done waiting (calls.tourFrom steps done waiting).visited := by
  induction steps generalizing done waiting with
  | zero =>
    cases next : waiting.dropWhile (· ∈ done) with
    | nil =>
      unfold tourFrom
      rw [next]
      exact Covers.finished (dropWhile_done next)
    | cons id rest =>
      -- Without steps left, a tour that still waits for something is cut off.
      unfold tourFrom at whole
      simp only [next] at whole
      cases found : calls.nodes.get? id <;> simp [found] at whole
  | succ steps ih =>
    unfold tourFrom at whole ⊢
    cases next : waiting.dropWhile (· ∈ done) with
    | nil => exact Covers.finished (dropWhile_done next)
    | cons id rest =>
      obtain ⟨fresh, front, split, past⟩ := dropWhile_next next
      simp only [next] at whole ⊢
      cases found : calls.nodes.get? id with
      | none =>
        simp only [found] at whole
        cases whole
      | some node =>
        simp only [found] at whole ⊢
        obtain ⟨-, -, -, key, -⟩ := h.function id node found
        exact Covers.visit found key fresh split past (ih _ _ whole)

end Calls

namespace Program

theorem Names.unique {p : Program} {id : Value} {f g : FuncRef} (first : p.Names id f) (second : p.Names id g) :
    f = g := by
  obtain ⟨before, after, split, named, last⟩ := first
  obtain ⟨before', after', split', named', last'⟩ := second
  rw [split, List.append_eq_append_iff] at split'
  rcases split' with ⟨between, -, same⟩ | ⟨between, -, same⟩
  · cases between with
    | nil => exact (List.cons.inj same).1
    | cons h between =>
      obtain ⟨rfl, rest⟩ := List.cons.inj same
      exact absurd named' (last g (rest ▸ List.mem_append_right _ (List.mem_cons_self ..)))
  · cases between with
    | nil => exact (List.cons.inj same).1.symm
    | cons h between =>
      obtain ⟨rfl, rest⟩ := List.cons.inj same
      exact absurd named (last' f (rest ▸ List.mem_append_right _ (List.mem_cons_self ..)))

/-- The parts that a tour from the entry points is made of. -/
theorem entryTour_ok {p : Program} {tour : Tour} (toured : p.entryTour = .ok tour) (whole : tour.missing = none) :
    ∃ roots calls, p.entryIds = .ok roots ∧ Calls.Describes p calls p.module.functions ∧
      Calls.Covers p calls [] roots tour.visited := by
  obtain ⟨roots, read, toured⟩ := except_bind_ok_iff.mp toured
  obtain ⟨calls, graph, toured⟩ := except_bind_ok_iff.mp toured
  obtain rfl := Except.ok.inj toured
  have described := Calls.ofProgram_describes graph
  exact ⟨roots, calls, read, described, Calls.tourFrom_covers described _ [] roots whole⟩

/-- A whole tour from the entry points visits what they reach, each function once. -/
theorem mem_visited_iff {p : Program} {tour : Tour} (toured : p.entryTour = .ok tour) (whole : tour.missing = none)
    {f : FuncRef} : f ∈ tour.visited ↔ p.Reachable f := by
  obtain ⟨roots, calls, read, described, covers⟩ := entryTour_ok toured whole
  have names {g : FuncRef} (member : g ∈ tour.visited) : p.Names (p.functionKey g) g := by
    obtain ⟨node, found, rfl⟩ := covers.found g member
    exact described.names found
  have visited {id : Value} {g : FuncRef} (named : p.Names id g)
      (known : id ∈ [] ∨ id ∈ tour.visited.map p.functionKey) : g ∈ tour.visited := by
    obtain ⟨g', member, rfl⟩ := List.mem_map.mp (known.resolve_left List.not_mem_nil)
    rwa [named.unique (names member)]
  constructor
  · intro member
    -- The reachable functions are closed under calls, and a tour visits nothing outside of such a set.
    refine covers.only (fun id => ∀ g, p.Names id g → p.Reachable g) ?_ ?_ f member f (names member)
    · intro id waiting g named
      obtain ⟨r, entry, value⟩ := (except_mem_mapM_ok read).mp waiting
      exact .entry entry value named
    · intro id node reached found called among g named
      obtain ⟨ids, callees, same⟩ := described.callees id node found
      rw [same, List.mem_eraseDups] at among
      obtain ⟨r, inside, call, value⟩ := (mem_callees callees).mp among
      exact .call (reached _ (described.names found)) inside call value named
  · intro reached
    -- By induction on how the function is reached; its callers are visited already.
    induction reached with
    | entry entry value named =>
      exact visited named (covers.waited _ ((except_mem_mapM_ok read).mpr ⟨_, entry, value⟩))
    | call _ inside call value named ih =>
      obtain ⟨node, found, rfl⟩ := covers.found _ ih
      obtain ⟨ids, callees, same⟩ := described.callees _ node found
      refine visited named (covers.called _ ih node found _ ?_)
      rw [same, List.mem_eraseDups]
      exact (mem_callees callees).mpr ⟨_, inside, call, value⟩

end Program

end BlockTally
