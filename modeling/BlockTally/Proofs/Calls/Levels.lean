import BlockTally.Proofs.Calls.BreadthFirst
import BlockTally.Proofs.Contract
import Mathlib.Data.List.Nodup
import Mathlib.Data.List.TakeWhile

/-! Tours from any ids, against a search level by level.

A tour keeps one list of what waits, with repetitions in it, and adds to it as it goes. The search that it is compared
with has no such list: it takes a level as a whole, and what this calls and no level before it holds is the next one.
Who goes through a tour visits its functions in order, whatever the visits change or report.
-/

set_option autoImplicit false

namespace BlockTally

/-- A level, and then so many more: the ids that a level calls and that were not seen before are the next one. -/
def levelByLevel (callees : Value → List Value) : Nat → List Value → List Value → List Value
  | 0, _, level => level
  | more + 1, seen, level =>
    level ++ levelByLevel callees more (seen ++ level) (unseen (seen ++ level) (level.flatMap callees))

section Levels
variable {callees : Value → List Value} {roots seen level : List Value}

theorem eraseDups_append_unseen (first second : List Value) :
    (first ++ second).eraseDups = first.eraseDups ++ unseen first.eraseDups second := by
  rw [List.eraseDups_append]
  unfold unseen List.removeAll
  congr 3
  funext id
  simp

/-- Where the calls of all that was seen are in the level, more levels come to what as many more calls lead to. -/
theorem levelByLevel_eq {calls : Nat} (more : Nat) (here : breadthFirst callees roots calls = seen ++ level)
    (called : (roots ++ seen.flatMap callees).eraseDups = seen ++ level) :
    seen ++ levelByLevel callees more seen level = breadthFirst callees roots (calls + more) := by
  induction more generalizing calls seen level with
  | zero => exact here.symm
  | succ more ih =>
    have next : (roots ++ (seen ++ level).flatMap callees).eraseDups =
        seen ++ level ++ unseen (seen ++ level) (level.flatMap callees) := by
      rw [List.flatMap_append, ← List.append_assoc, eraseDups_append_unseen, called]
    rw [levelByLevel, ← List.append_assoc, ← Nat.add_assoc, Nat.add_right_comm]
    refine ih ?_ next
    rw [breadthFirst, here, next]

theorem levelByLevel_eq_breadthFirst (callees : Value → List Value) (roots : List Value) (more : Nat) :
    levelByLevel callees more [] roots.eraseDups = breadthFirst callees roots more := by
  have start : breadthFirst callees roots 0 = [] ++ roots.eraseDups := rfl
  have called : (roots ++ [].flatMap callees).eraseDups = [] ++ roots.eraseDups := by
    rw [List.flatMap_nil, List.append_nil, List.nil_append]
  have all := levelByLevel_eq more start called
  rwa [List.nil_append, Nat.zero_add] at all

theorem breadthFirst_prefix {fewer calls : Nat} (le : fewer ≤ calls) :
    breadthFirst callees roots fewer <+: breadthFirst callees roots calls := by
  induction le with
  | refl => exact List.prefix_rfl
  | step _ ih => exact ih.trans (breadthFirst_prefix_succ _)

end Levels

/-- In a list without repetitions, what stands before an entry of the front is in the front itself. -/
theorem mem_front_of_pair {α : Type} {front rest : List α} {a b : α} (distinct : (front ++ rest).Nodup)
    (pair : [a, b].Sublist (front ++ rest)) (inside : b ∈ front) : a ∈ front := by
  obtain ⟨first, second, split, early, late⟩ := List.sublist_append_iff.mp pair
  cases first with
  | nil =>
    obtain rfl : [a, b] = second := split
    have outside : b ∈ rest := late.subset (List.mem_cons_of_mem _ (List.mem_cons_self ..))
    exact absurd rfl ((List.nodup_append.mp distinct).2.2 b inside b outside)
  | cons head tail =>
    obtain ⟨rfl, -⟩ := List.cons.inj split
    exact early.subset (List.mem_cons_self ..)

namespace Program

inductive LeadsIn (p : Program) (roots : List Value) : Nat → Value → Prop where
  | root {id : Value} : id ∈ roots → LeadsIn p roots 0 id
  | call {calls : Nat} {id called : Value} {f : FuncRef} {r : InstRef} : LeadsIn p roots calls id →
      p.functionNamed? id = some f → r ∈ p.functionBody f → (p.inst r).opcode = .functionCall →
      (p.inst r).value 0 = .ok called → LeadsIn p roots (calls + 1) called

def isFunction (p : Program) (id : Value) : Bool :=
  (p.functionNamed? id).isSome

def searchOrder (p : Program) (roots : List Value) (levels : Nat) : List Value :=
  levelByLevel p.calleesOf levels [] roots.eraseDups

/-- The tour is the search from the roots, up to the first id that is no function. -/
structure Searches (p : Program) (roots : List Value) (tour : Tour) : Prop where
  listed : ∀ f ∈ tour.visited, f ∈ p.module.functions
  once : tour.visited.Nodup
  /-- There are no more levels than functions, so the search may go as deep as one likes. -/
  order : ∀ levels ≥ p.module.functions.length,
    tour.visited.map p.functionKey = (p.searchOrder roots levels).takeWhile p.isFunction ∧
      tour.missing = ((p.searchOrder roots levels).dropWhile p.isFunction).head?
  /-- What is visited later is not nearer to the roots. -/
  nearer : tour.visited.Pairwise fun f g => ∀ calls, p.LeadsIn roots calls (p.functionKey g) →
    ∃ fewer ≤ calls, p.LeadsIn roots fewer (p.functionKey f)
  whole : tour.missing = none ↔ ∀ calls id, p.LeadsIn roots calls id → p.isFunction id
  all : tour.missing = none → ∀ f, f ∈ tour.visited ↔
    f ∈ p.module.functions ∧ ∃ calls, p.LeadsIn roots calls (p.functionKey f)

variable {p : Program} {roots : List Value}

theorem mem_calleesOf {id called : Value} : called ∈ p.calleesOf id ↔ ∃ f r, p.functionNamed? id = some f ∧
    r ∈ p.functionBody f ∧ (p.inst r).opcode = .functionCall ∧ (p.inst r).value 0 = .ok called := by
  unfold calleesOf
  cases p.functionNamed? id with
  | none => simp
  | some f =>
    unfold calledIds
    simp only [List.mem_eraseDups, List.mem_filterMap, List.mem_filter, decide_eq_true_eq, Option.some.injEq,
      exists_and_left, exists_eq_left', and_assoc]
    refine exists_congr fun r => and_congr_right fun _ => and_congr_right fun _ => ?_
    exact ⟨toOption_eq_some, fun value => by rw [value]; rfl⟩

/-- A search so many levels deep comes to what that many calls or fewer lead to. -/
theorem mem_breadthFirst_iff {levels : Nat} {id : Value} :
    id ∈ breadthFirst p.calleesOf roots levels ↔ ∃ calls ≤ levels, p.LeadsIn roots calls id := by
  -- By induction on the levels: one more level adds the callees of what was reached, which are led to by one more
  -- call.
  induction levels generalizing id with
  | zero =>
    rw [breadthFirst, List.mem_eraseDups]
    constructor
    · exact fun root => ⟨0, Nat.le_refl 0, .root root⟩
    · rintro ⟨calls, none, leads⟩
      obtain rfl := Nat.le_zero.mp none
      cases leads with
      | root root => exact root
  | succ levels ih =>
    rw [breadthFirst, List.mem_eraseDups, List.mem_append, List.mem_flatMap]
    constructor
    · rintro (root | ⟨caller, earlier, called⟩)
      · exact ⟨0, Nat.zero_le _, .root root⟩
      · obtain ⟨calls, le, leads⟩ := ih.mp earlier
        obtain ⟨f, r, named, inside, call, value⟩ := mem_calleesOf.mp called
        exact ⟨calls + 1, Nat.succ_le_succ le, .call leads named inside call value⟩
    · rintro ⟨calls, le, leads⟩
      cases leads with
      | root root => exact .inl root
      | call leads named inside call value =>
        have callee := mem_calleesOf.mpr ⟨_, _, named, inside, call, value⟩
        exact .inr ⟨_, ih.mpr ⟨_, Nat.le_of_succ_le_succ le, leads⟩, callee⟩

theorem isFunction_iff {id : Value} : p.isFunction id ↔ ∃ f, p.functionNamed? id = some f :=
  Option.isSome_iff_exists

/-! ### What a tour comes to, in the order of the search -/

namespace GoesFrom

variable {tour : Tour}

theorem length_visited_le (h : p.GoesFrom roots tour) : tour.visited.length ≤ p.module.functions.length :=
  (List.subperm_of_subset h.visited_nodup h.listed).length_le

theorem prefix_breadthFirst (h : p.GoesFrom roots tour) {levels : Nat} (deep : tour.visited.length ≤ levels) :
    tour.ids p <+: breadthFirst p.calleesOf roots levels := by
  have met := h.met.take_prefix levels
  rwa [List.take_of_length_le] at met
  rw [Tour.ids, List.length_append, List.length_map]
  cases tour.missing <;> simp <;> omega

theorem eq_breadthFirst (h : p.GoesFrom roots tour) (whole : tour.missing = none) {levels : Nat}
    (deep : tour.visited.length ≤ levels) : breadthFirst p.calleesOf roots levels = tour.visited.map p.functionKey := by
  have ids : tour.ids p = tour.visited.map p.functionKey := by
    rw [Tour.ids, whole]
    exact List.append_nil _
  rw [← ids]
  exact h.met.eq_breadthFirst (h.finished whole) (by rwa [ids, List.length_map])

theorem isFunction_visited (h : p.GoesFrom roots tour) : ∀ id ∈ tour.visited.map p.functionKey, p.isFunction id := by
  intro id member
  obtain ⟨f, visited, rfl⟩ := List.mem_map.mp member
  exact isFunction_iff.mpr ⟨f, h.named f visited⟩

theorem order (h : p.GoesFrom roots tour) {levels : Nat} (deep : tour.visited.length ≤ levels) :
    tour.visited.map p.functionKey = (p.searchOrder roots levels).takeWhile p.isFunction ∧
      tour.missing = ((p.searchOrder roots levels).dropWhile p.isFunction).head? := by
  rw [searchOrder, levelByLevel_eq_breadthFirst]
  cases ended : tour.missing with
  | none =>
    rw [h.eq_breadthFirst ended deep, List.takeWhile_eq_self_iff.mpr h.isFunction_visited,
      List.dropWhile_eq_nil_iff.mpr h.isFunction_visited]
    exact ⟨rfl, rfl⟩
  | some id =>
    obtain ⟨rest, split⟩ := h.prefix_breadthFirst deep
    have unknown : ¬p.isFunction id = true := by simp [isFunction, h.missing id ended]
    rw [Tour.ids, ended, Option.toList_some, List.append_assoc, List.singleton_append] at split
    rw [← split, List.takeWhile_append_of_pos h.isFunction_visited, List.dropWhile_append_of_pos h.isFunction_visited,
      List.takeWhile_cons_of_neg unknown, List.dropWhile_cons_of_neg unknown]
    exact ⟨(List.append_nil _).symm, rfl⟩

theorem nearer (h : p.GoesFrom roots tour) :
    tour.visited.Pairwise fun f g => ∀ calls, p.LeadsIn roots calls (p.functionKey g) →
      ∃ fewer ≤ calls, p.LeadsIn roots fewer (p.functionKey f) := by
  refine List.pairwise_iff_forall_sublist.mpr fun {f g} pair calls leads => ?_
  -- What so many calls lead to is a front of the whole search, and the later function is in it.
  obtain ⟨rest, split⟩ : breadthFirst p.calleesOf roots calls <+: breadthFirst p.calleesOf roots (max calls _) :=
    breadthFirst_prefix (Nat.le_max_left calls tour.visited.length)
  have distinct := breadthFirst_nodup p.calleesOf roots (max calls tour.visited.length)
  have visited := h.prefix_breadthFirst (Nat.le_max_right calls tour.visited.length)
  have keys : [p.functionKey f, p.functionKey g].Sublist (tour.ids p) :=
    (pair.map p.functionKey).trans (List.sublist_append_left _ _)
  have ordered := keys.trans visited.sublist
  rw [← split] at distinct ordered
  exact mem_breadthFirst_iff.mp
    (mem_front_of_pair distinct ordered (mem_breadthFirst_iff.mpr ⟨calls, Nat.le_refl _, leads⟩))

theorem leadsIn (h : p.GoesFrom roots tour) {id : Value} (member : id ∈ tour.ids p) :
    ∃ calls, p.LeadsIn roots calls id := by
  obtain ⟨levels, among⟩ := h.met.mem member
  obtain ⟨calls, -, leads⟩ := mem_breadthFirst_iff.mp among
  exact ⟨calls, leads⟩

theorem mem_visited_of_leadsIn (h : p.GoesFrom roots tour) (whole : tour.missing = none) {calls : Nat} {id : Value}
    (leads : p.LeadsIn roots calls id) : id ∈ tour.visited.map p.functionKey := by
  rw [← h.eq_breadthFirst whole (Nat.le_max_right calls tour.visited.length)]
  exact mem_breadthFirst_iff.mpr ⟨calls, Nat.le_max_left .., leads⟩

theorem whole_iff (h : p.GoesFrom roots tour) :
    tour.missing = none ↔ ∀ calls id, p.LeadsIn roots calls id → p.isFunction id := by
  constructor
  · exact fun whole calls id leads => h.isFunction_visited id (h.mem_visited_of_leadsIn whole leads)
  · intro named
    cases ended : tour.missing with
    | none => rfl
    | some id =>
      obtain ⟨calls, leads⟩ := h.leadsIn (List.mem_append_right _ (by rw [ended]; exact List.mem_singleton_self id))
      have known := named calls id leads
      rw [isFunction, h.missing id ended] at known
      cases known

theorem searches (h : p.GoesFrom roots tour) (distinct : p.FunctionsDistinct) : p.Searches roots tour where
  listed := h.listed
  once := h.visited_nodup
  order levels deep := h.order (h.length_visited_le.trans deep)
  nearer := h.nearer
  whole := h.whole_iff
  all whole f := by
    refine ⟨fun visited => ⟨h.listed f visited, h.leadsIn ?_⟩, fun ⟨member, calls, leads⟩ => ?_⟩
    · exact List.mem_append_left _ (List.mem_map_of_mem visited)
    · obtain ⟨g, visited, same⟩ := List.mem_map.mp (h.mem_visited_of_leadsIn whole leads)
      have key : p.functionId g = p.functionId f := Value.int.inj same
      rwa [← List.inj_on_of_nodup_map distinct (h.listed g visited) member key]

end GoesFrom

end Program

/-! ### Going through a tour -/

namespace Tour

variable {σ : Type} {visit : FuncRef → Change σ Bool} {tour : Tour}

/-- Visits to functions one after the other, with what each of them reported and the state that the last one left. -/
inductive Visits (visit : FuncRef → Change σ Bool) : σ → List FuncRef → List Bool → σ → Prop where
  | nil (s : σ) : Visits visit s [] [] s
  | cons {s here last : σ} {f : FuncRef} {rest : List FuncRef} {report : Bool} {reports : List Bool} :
      visit f s = .ok report here → Visits visit here rest reports last →
      Visits visit s (f :: rest) (report :: reports) last

def Fails (visit : FuncRef → Change σ Bool) (s : σ) (functions : List FuncRef) (e : Error) (last : σ) : Prop :=
  ∃ before f after reports here, functions = before ++ f :: after ∧ Visits visit s before reports here ∧
    visit f here = .error e last

def report (visit : FuncRef → Change σ Bool) (changed : Bool) (f : FuncRef) : Change σ Bool := do
  return changed || (← visit f)

theorem visits_cases (visit : FuncRef → Change σ Bool) (functions : List FuncRef) (changed : Bool) (s : σ) :
    (∃ reports last, Visits visit s functions reports last ∧
      functions.foldlM (report visit) changed s = .ok (changed || reports.any id) last) ∨
    ∃ e last, Fails visit s functions e last ∧ functions.foldlM (report visit) changed s = .error e last := by
  induction functions generalizing changed s with
  | nil => exact .inl ⟨[], s, .nil s, by rw [List.any_nil, Bool.or_false]; rfl⟩
  | cons f rest ih =>
    rw [List.foldlM_cons]
    cases visited : visit f s with
    | error e last =>
      have failed : report visit changed f s = .error e last := Change.bind_of_error visited
      exact .inr ⟨e, last, ⟨[], f, rest, [], s, rfl, .nil s, visited⟩, Change.bind_of_error failed⟩
    | ok reported here =>
      have answered : report visit changed f s = .ok (changed || reported) here := Change.bind_of_ok visited
      rw [Change.bind_of_ok answered]
      rcases ih (changed || reported) here with ⟨reports, last, visits, told⟩ | ⟨e, last, fails, told⟩
      · refine .inl ⟨reported :: reports, last, .cons visited visits, ?_⟩
        rw [told, List.any_cons, Bool.or_assoc]
        rfl
      · obtain ⟨before, g, after, reports, there, rfl, visits, failed⟩ := fails
        refine .inr ⟨e, last, ⟨f :: before, g, after, reported :: reports, there, rfl, ?_, failed⟩, told⟩
        exact .cons visited visits

def close (tour : Tour) (changed : Bool) : Change σ Bool :=
  match tour.missing with
  | some id => throw (.illFormed (.missingFunction id))
  | none => return changed

theorem anyChange_eq (tour : Tour) (visit : FuncRef → Change σ Bool) :
    tour.anyChange visit = tour.visited.foldlM (report visit) false >>= tour.close :=
  rfl

/-- Every function of the tour is visited, one visit each and in order, unless one of the visits fails. The answer tells
whether any visit reported a change; a missing function is told of when all before it are visited. -/
theorem after_anyChange (tour : Tour) (visit : FuncRef → Change σ Bool) (s : σ) :
    Change.After (tour.anyChange visit) s
      (fun changed last => tour.missing = none ∧
        ∃ reports, Visits visit s tour.visited reports last ∧ changed = reports.any id)
      fun e last => Fails visit s tour.visited e last ∨ ∃ id reports, tour.missing = some id ∧
        e = .illFormed (.missingFunction id) ∧ Visits visit s tour.visited reports last := by
  rw [anyChange_eq]
  apply Change.After.bind
  rcases visits_cases visit tour.visited false s with ⟨reports, last, visits, told⟩ | ⟨e, last, fails, told⟩
  · rw [Change.After, told]
    unfold close
    cases ended : tour.missing with
    | none => exact Change.After.pure ⟨rfl, reports, visits, Bool.false_or _⟩
    | some id => exact Change.After.throw (.inr ⟨id, reports, rfl, rfl, visits⟩)
  · rw [Change.After, told]
    exact .inl fails

end Tour

namespace Program

variable {p : Program}

/-- From whatever ids it starts, a tour ends, and it is the search level by level. Visits do not change its course: they
are made to its functions in their order, whatever state they change. -/
theorem tourFrom_searches (distinct : p.FunctionsDistinct) (filled : p.CallsFilled) (roots : List Value) :
    ∃ tour, p.tourFrom roots = .ok tour ∧ p.Searches roots tour ∧
      ∀ {σ : Type} (visit : FuncRef → Change σ Bool) (s : σ),
        Change.After (tour.anyChange visit) s
          (fun changed last => tour.missing = none ∧
            ∃ reports, Tour.Visits visit s tour.visited reports last ∧ changed = reports.any id)
          fun e last => Tour.Fails visit s tour.visited e last ∨ ∃ id reports, tour.missing = some id ∧
            e = .illFormed (.missingFunction id) ∧ Tour.Visits visit s tour.visited reports last := by
  obtain ⟨calls, graph⟩ := filled.graph
  have toured : p.tourFrom roots = .ok (calls.tour roots) := except_bind_ok_iff.mpr ⟨calls, graph, rfl⟩
  exact ⟨calls.tour roots, toured, (tourFrom_goesFrom distinct toured).searches distinct,
    fun visit s => Tour.after_anyChange _ visit s⟩

/-- Three functions: the first two call each other and themselves, the second one calls the last one. -/
def callers : Program where
  instructions := ⟨#[
    { instruction := { opcode := .function, resultId := 1 } },
    { instruction := { opcode := .label, resultId := 2 } },
    { instruction := { opcode := .functionCall, resultId := 3, operands := [.ofId (.int 1)] } },
    { instruction := { opcode := .functionCall, resultId := 4, operands := [.ofId (.int 5)] } },
    { instruction := { opcode := .functionEnd } },
    { instruction := { opcode := .function, resultId := 5 } },
    { instruction := { opcode := .label, resultId := 6 } },
    { instruction := { opcode := .functionCall, resultId := 7, operands := [.ofId (.int 8)] } },
    { instruction := { opcode := .functionCall, resultId := 9, operands := [.ofId (.int 1)] } },
    { instruction := { opcode := .functionCall, resultId := 10, operands := [.ofId (.int 5)] } },
    { instruction := { opcode := .function, resultId := 8 } }]⟩
  blocks := ⟨#[{ label := ⟨1⟩, body := [⟨2⟩, ⟨3⟩] }, { label := ⟨6⟩, body := [⟨7⟩, ⟨8⟩, ⟨9⟩] }]⟩
  functions := ⟨#[
    { definition := ⟨0⟩, blocks := [⟨0⟩], endMark := ⟨4⟩ },
    { definition := ⟨5⟩, blocks := [⟨1⟩], endMark := ⟨4⟩ },
    { definition := ⟨10⟩, endMark := ⟨4⟩ }]⟩
  module := { idBound := 11, functions := [⟨2⟩, ⟨0⟩, ⟨1⟩] }

/-- A root that is named twice is visited once; a root that is no function ends the tour before the callees. -/
theorem tourFrom_searches_callers : callers.FunctionsDistinct ∧ callers.CallsFilled ∧
    (∃ tour, callers.tourFrom [.int 5, .int 5] = .ok tour ∧ callers.Searches [.int 5, .int 5] tour ∧
      tour = { visited := [⟨1⟩, ⟨2⟩, ⟨0⟩] }) ∧
    ∃ tour, callers.tourFrom [.int 1, .int 20] = .ok tour ∧ callers.Searches [.int 1, .int 20] tour ∧
      tour = { visited := [⟨0⟩], missing := some (.int 20) } := by
  have distinct : callers.FunctionsDistinct := by decide
  have filled : callers.CallsFilled := by unfold CallsFilled; decide
  obtain ⟨tour, toured, searches, -⟩ := tourFrom_searches distinct filled [.int 5, .int 5]
  obtain ⟨tour', toured', searches', -⟩ := tourFrom_searches distinct filled [.int 1, .int 20]
  have whole : callers.tourFrom [.int 5, .int 5] = .ok { visited := [⟨1⟩, ⟨2⟩, ⟨0⟩] } := by decide +kernel
  have cut : callers.tourFrom [.int 1, .int 20] = .ok { visited := [⟨0⟩], missing := some (.int 20) } := by
    decide +kernel
  exact ⟨distinct, filled, ⟨tour, toured, searches, Except.ok.inj (toured.symm.trans whole)⟩,
    ⟨tour', toured', searches', Except.ok.inj (toured'.symm.trans cut)⟩⟩

end Program

end BlockTally
