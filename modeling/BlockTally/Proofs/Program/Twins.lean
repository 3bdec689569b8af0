import BlockTally.Proofs.Calls.BreadthFirst
import BlockTally.Proofs.Program.Contents
import BlockTally.Proofs.Program.Instrumentation
import Mathlib.Data.List.Pairwise

/-! Programs with the same reachable part.

Two modules may list their functions in different orders, and have different functions that no entry point leads to. If
the rest is the same, then what stands at the same place of both is paired: in a section by the position, in a function
by its id and the position. Under this pairing the programs look alike.
-/

set_option autoImplicit false

namespace BlockTally

/-- In a list without repetitions that is put together from parts, an entry tells the part that it is from. -/
theorem eq_of_nodup_flatMap {α β : Type} {parts : List α} {list : α → List β} (distinct : (parts.flatMap list).Nodup)
    {a a' : α} (member : a ∈ parts) (member' : a' ∈ parts) {b : β} (inside : b ∈ list a) (inside' : b ∈ list a') :
    a = a' := by
  by_contra differ
  have apart := (List.nodup_flatMap.mp distinct).2
  have : Std.Symm (Function.onFun List.Disjoint list) := ⟨fun _ _ disjoint _ second first => disjoint first second⟩
  exact apart.forall member member' differ inside inside'

namespace Program

variable {p q : Program} {f g : FuncRef}

structure SameReach (p q : Program) : Prop where
  there : ∀ f, p.Reachable f → ∃ g, q.Reachable g ∧ q.contents g = p.contents f
  back : ∀ g, q.Reachable g → ∃ f, p.Reachable f ∧ p.contents f = q.contents g

/-- The functions have different ids, no instruction is listed twice, what is listed was made, and every call names what
it calls. -/
structure Tidy (p : Program) : Prop where
  functions : p.FunctionsDistinct
  insts : p.allInsts.Nodup
  closed : p.Closed
  calls : ∀ f ∈ p.module.functions, ∀ r ∈ p.functionBody f,
    (p.inst r).opcode = .functionCall → (p.inst r).operands ≠ []

theorem SameReach.symm (h : p.SameReach q) : q.SameReach p :=
  ⟨h.back, h.there⟩

theorem functionId_of_contents (same : q.contents g = p.contents f) : q.functionId g = p.functionId f :=
  congrArg (fun contents => contents.definition.resultId) same

theorem eq_of_functionId (distinct : p.FunctionsDistinct) (first : f ∈ p.module.functions)
    (second : g ∈ p.module.functions) (same : p.functionId f = p.functionId g) : f = g :=
  List.inj_on_of_nodup_map distinct first second same

/-- Functions with the same id that are reached in both programs are the same. -/
theorem SameReach.contents (h : p.SameReach q) (distinct : q.FunctionsDistinct) (reached : p.Reachable f)
    (reached' : q.Reachable g) (id : q.functionId g = p.functionId f) : q.contents g = p.contents f := by
  obtain ⟨g', reached'', same⟩ := h.there f reached
  obtain rfl := eq_of_functionId distinct reached'.mem reached''.mem (id.trans (functionId_of_contents same).symm)
  exact same

/-! ### Where things stand -/

def Entry {α : Type} (p : Program) (list : FuncRef → List α) (spot : Id × Nat) (a : α) : Prop :=
  ∃ f, p.Reachable f ∧ p.functionId f = spot.1 ∧ (list f)[spot.2]? = some a

theorem entry_unique {α : Type} {list : FuncRef → List α} (distinct : p.FunctionsDistinct)
    (own : ∀ f ∈ p.module.functions, (list f).Nodup)
    (apart : ∀ f ∈ p.module.functions, ∀ g ∈ p.module.functions, ∀ a ∈ list f, a ∈ list g → f = g) :
    Relator.BiUnique (p.Entry list) := by
  constructor
  · rintro ⟨id, k⟩ ⟨id', k'⟩ a ⟨f, reached, named, found⟩ ⟨g, reached', named', found'⟩
    obtain rfl := apart f reached.mem g reached'.mem a (List.mem_of_getElem? found) (List.mem_of_getElem? found')
    obtain ⟨inside, -⟩ := List.getElem?_eq_some_iff.mp found
    have position := (List.getElem?_inj inside (own f reached.mem)).mp (found.trans found'.symm)
    exact Prod.ext (named.symm.trans named') position
  · rintro ⟨id, k⟩ a b ⟨f, reached, named, found⟩ ⟨g, reached', named', found'⟩
    obtain rfl := eq_of_functionId distinct reached.mem reached'.mem (named.trans named'.symm)
    exact Option.some.inj (found.symm.trans found')

def Listed (p : Program) (spot : Option Section × Nat) (r : InstRef) : Prop :=
  (p.module.listed spot.1)[spot.2]? = some r

/-- Where an instruction stands: in a list outside of functions, in a function that is reached, or nowhere yet. -/
inductive Spot where
  | listed (spot : Option Section × Nat)
  | inside (spot : Id × Nat)
  | next (k : Nat)

def At (p : Program) : Spot → InstRef → Prop
  | .listed spot, r => p.Listed spot r
  | .inside spot, r => p.Entry p.functionInsts spot r
  | .next k, r => r = ⟨p.instructions.size + k⟩

theorem labels_sublist (p : Program) (blocks : List BlockRef) :
    (blocks.map fun b => (p.block b).label).Sublist (blocks.flatMap p.blockInsts) := by
  induction blocks with
  | nil => exact List.Sublist.slnil
  | cons b rest ih => exact .cons_cons _ (ih.trans (List.sublist_append_right ..))

namespace Tidy

variable (h : p.Tidy)
include h

theorem functionPart_nodup : p.functionPart.Nodup :=
  (List.nodup_append.mp h.insts).2.1

theorem insts_unique : Relator.BiUnique (p.Entry p.functionInsts) :=
  entry_unique h.functions (List.nodup_flatMap.mp h.functionPart_nodup).1
    fun _ first _ second _ inside => eq_of_nodup_flatMap h.functionPart_nodup first second inside

theorem blocks_unique : Relator.BiUnique (p.Entry fun f => (p.function f).blocks) := by
  refine entry_unique h.functions (fun f listed => ?_) fun f first g second b inside inside' => ?_
  · have inner : ((p.function f).blocks.flatMap p.blockInsts).Nodup :=
      (List.nodup_append.mp (List.nodup_append.mp ((List.nodup_flatMap.mp h.functionPart_nodup).1 f listed)).1).2.1
    exact (inner.sublist (p.labels_sublist _)).of_map
  · exact eq_of_nodup_flatMap h.functionPart_nodup first second (label_mem_functionInsts inside)
      (label_mem_functionInsts inside')

theorem listed_unique : Relator.BiUnique p.Listed := by
  have globals : (Module.places.flatMap p.module.listed).Nodup := by
    rw [← Module.globals_eq]
    exact (List.nodup_append.mp h.insts).1
  constructor
  · rintro ⟨place, k⟩ ⟨place', k'⟩ r here there
    obtain rfl := eq_of_nodup_flatMap globals (Module.mem_places place) (Module.mem_places place')
      (List.mem_of_getElem? here) (List.mem_of_getElem? there)
    obtain ⟨inside, -⟩ := List.getElem?_eq_some_iff.mp here
    have own := (List.nodup_flatMap.mp globals).1 place (Module.mem_places place)
    exact congrArg (Prod.mk place) ((List.getElem?_inj inside own).mp (here.trans there.symm))
  · exact fun _ _ _ here there => Option.some.inj (here.symm.trans there)

end Tidy

theorem Listed.mem_globals {spot : Option Section × Nat} {r : InstRef} (h : p.Listed spot r) : r ∈ p.module.globals :=
  p.module.listed_subset_globals spot.1 (List.mem_of_getElem? h)

theorem Entry.mem_functionPart {spot : Id × Nat} {r : InstRef} (h : p.Entry p.functionInsts spot r) :
    r ∈ p.functionPart := by
  obtain ⟨f, reached, -, found⟩ := h
  exact List.mem_flatMap.mpr ⟨f, reached.mem, List.mem_of_getElem? found⟩

theorem not_holds_next (p : Program) (k : Nat) : ¬p.Holds ⟨p.instructions.size + k⟩ :=
  Nat.not_lt.mpr (Nat.le_add_right ..)

namespace Tidy

variable (h : p.Tidy) {r : InstRef}
include h

theorem holds_listed {spot : Option Section × Nat} (listed : p.Listed spot r) : p.Holds r :=
  h.closed r (List.mem_append_left _ listed.mem_globals)

theorem holds_inside {spot : Id × Nat} (inside : p.Entry p.functionInsts spot r) : p.Holds r :=
  h.closed r (List.mem_append_right _ inside.mem_functionPart)

/-- What is listed outside of functions is in none of them. -/
theorem not_inside {spot : Option Section × Nat} {spot' : Id × Nat} (listed : p.Listed spot r) :
    ¬p.Entry p.functionInsts spot' r :=
  fun inside => (List.nodup_append.mp h.insts).2.2 r listed.mem_globals r inside.mem_functionPart rfl

theorem at_unique : Relator.BiUnique p.At := by
  constructor
  · intro spot other r here there
    -- The lists outside of functions, the functions, and what is yet to be made have nothing in common.
    cases spot with
    | listed spot =>
      cases other with
      | listed other => rw [h.listed_unique.left here there]
      | inside other => exact absurd there (h.not_inside here)
      | next k => exact absurd (there ▸ h.holds_listed here) (p.not_holds_next k)
    | inside spot =>
      cases other with
      | listed other => exact absurd here (h.not_inside there)
      | inside other => rw [h.insts_unique.left here there]
      | next k => exact absurd (there ▸ h.holds_inside here) (p.not_holds_next k)
    | next k =>
      cases other with
      | listed other => exact absurd (here ▸ h.holds_listed there) (p.not_holds_next k)
      | inside other => exact absurd (here ▸ h.holds_inside there) (p.not_holds_next k)
      | next other =>
        have same := congrArg InstRef.index (here.symm.trans there)
        rw [Nat.add_left_cancel same]
  · intro spot r s here there
    cases spot with
    | listed spot => exact h.listed_unique.right here there
    | inside spot => exact h.insts_unique.right here there
    | next k => exact here.trans there.symm

end Tidy

/-! ### The pairing -/

/-- What two relations have in common determines each side if both relations do. -/
theorem biUnique_common {ι α β : Type} {left : ι → α → Prop} {right : ι → β → Prop} (unique : Relator.BiUnique left)
    (unique' : Relator.BiUnique right) : Relator.BiUnique fun a b => ∃ i, left i a ∧ right i b := by
  constructor
  · rintro a a' b ⟨i, here, there⟩ ⟨j, here', there'⟩
    obtain rfl := unique'.left there there'
    exact unique.right here here'
  · rintro a b b' ⟨i, here, there⟩ ⟨j, here', there'⟩
    obtain rfl := unique.left here here'
    exact unique'.right there there'

/-- What stands at the same place of two programs is paired. -/
def twins (first : p.Tidy) (second : q.Tidy) : Pairing where
  insts r s := ∃ spot, p.At spot r ∧ q.At spot s
  blocks b c := ∃ spot, p.Entry (fun f => (p.function f).blocks) spot b ∧
    q.Entry (fun g => (q.function g).blocks) spot c
  functions f g := p.Reachable f ∧ q.Reachable g ∧ q.functionId g = p.functionId f
  count := p.blocks.size
  count' := q.blocks.size
  insts_unique := biUnique_common first.at_unique second.at_unique
  blocks_unique := biUnique_common first.blocks_unique second.blocks_unique

theorem inst_of_not_holds {r : InstRef} (absent : ¬p.Holds r) : p.inst r = default := by
  have none : p.instructions.items[r.index]? = none := Array.getElem?_eq_none (Nat.le_of_not_lt absent)
  unfold inst Arena.get
  rw [none]
  rfl

section Twins

variable (first : p.Tidy) (second : q.Tidy)

theorem twins_listed (globals : p.SameGlobals q) (place : Option Section) :
    List.Forall₂ (twins first second).insts (p.module.listed place) (q.module.listed place) := by
  have length : (p.module.listed place).length = (q.module.listed place).length := by
    simpa using (congrArg List.length (globals.listed place)).symm
  exact forall₂_iff_getElem?.mpr ⟨length, fun k r s here there => ⟨.listed (place, k), here, there⟩⟩

theorem SameReach.lines (reach : p.SameReach q) (paired : (twins first second).functions f g) :
    (q.functionInsts g).map q.inst = (p.functionInsts f).map p.inst := by
  obtain ⟨reached, reached', id⟩ := paired
  rw [map_functionInsts, map_functionInsts, reach.contents second.functions reached reached' id]

theorem twins_functionInsts (reach : p.SameReach q) (paired : (twins first second).functions f g) :
    List.Forall₂ (twins first second).insts (p.functionInsts f) (q.functionInsts g) := by
  have length : (p.functionInsts f).length = (q.functionInsts g).length := by
    simpa using (congrArg List.length (reach.lines first second paired)).symm
  obtain ⟨reached, reached', id⟩ := paired
  refine forall₂_iff_getElem?.mpr ⟨length, fun k r s here there => ⟨.inside (p.functionId f, k), ?_, ?_⟩⟩
  · exact ⟨f, reached, rfl, here⟩
  · exact ⟨g, reached', id, there⟩

theorem twins_inst (globals : p.SameGlobals q) (reach : p.SameReach q) {r s : InstRef}
    (paired : (twins first second).insts r s) : q.inst s = p.inst r := by
  obtain ⟨spot, here, there⟩ := paired
  cases spot with
  | listed spot =>
    simp only [At, Listed] at here there
    simpa [here, there] using congrArg (·[spot.2]?) (globals.listed spot.1)
  | inside spot =>
    obtain ⟨f, reached, named, found⟩ := here
    obtain ⟨g, reached', named', found'⟩ := there
    have lines := reach.lines first second ⟨reached, reached', named'.trans named.symm⟩
    simpa [found, found'] using congrArg (·[spot.2]?) lines
  | next k =>
    obtain rfl := here
    obtain rfl := there
    rw [inst_of_not_holds (p.not_holds_next k), inst_of_not_holds (q.not_holds_next k)]

theorem twins_holds {r s : InstRef} (paired : (twins first second).insts r s) : p.Holds r ↔ q.Holds s := by
  obtain ⟨spot, here, there⟩ := paired
  cases spot with
  | listed spot => exact iff_of_true (first.holds_listed here) (second.holds_listed there)
  | inside spot => exact iff_of_true (first.holds_inside here) (second.holds_inside there)
  | next k =>
    obtain rfl := here
    obtain rfl := there
    exact iff_of_false (p.not_holds_next k) (q.not_holds_next k)

/-- Programs with the same reachable part look alike. -/
theorem alike_twins (globals : p.SameGlobals q) (reach : p.SameReach q) : p.Alike (twins first second) q where
  module :=
    { version := globals.version, idBound := globals.idBound, memoryModel := twins_listed first second globals none
      list := fun place => twins_listed first second globals (some place) }
  inst := twins_inst first second globals reach
  holds := twins_holds first second
  count := rfl
  count' := rfl
  block := by
    rintro b c ⟨spot, ⟨f, reached, named, found⟩, ⟨g, reached', named', found'⟩⟩
    have paired : (twins first second).functions f g := ⟨reached, reached', named'.trans named.symm⟩
    have insts := twins_functionInsts first second reach paired
    have blocks := (parts_of_functionInsts insts (reach.contents second.functions reached reached' paired.2.2)).2.2.1
    exact (forall₂_iff_getElem?.mp blocks).2 _ _ _ found found'
  function := by
    intro f g paired
    have insts := twins_functionInsts first second reach paired
    obtain ⟨reached, reached', id⟩ := paired
    obtain ⟨definition, parameters, blocks, endMark⟩ :=
      parts_of_functionInsts insts (reach.contents second.functions reached reached' id)
    refine ⟨definition, parameters, forall₂_iff_getElem?.mpr ⟨blocks.length_eq, fun k b c here there => ?_⟩, endMark⟩
    exact ⟨(p.functionId f, k), ⟨f, reached, rfl, here⟩, ⟨g, reached', id, there⟩⟩
  fresh k := ⟨.next k, rfl, rfl⟩

end Twins

end Program

end BlockTally
