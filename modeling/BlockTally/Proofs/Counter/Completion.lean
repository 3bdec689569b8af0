import BlockTally.Proofs.Counter.Failure
import BlockTally.Proofs.Workspace.Readable
import Mathlib.Data.Int.Interval

/-! Runs that come to their end.

In a valid module in which nothing is missing that a run reads, the blocks can be numbered and the types can be read.
So a run ends well, or the ids run out. The numbers of blocks are no problem: there are fewer blocks than ids.
-/

set_option autoImplicit false

namespace BlockTally

namespace Program

variable {p : Program} {labels : Labels} {tour : Tour}

/-! ### Numberings that succeed -/

def CallsFunctions (p : Program) : Prop :=
  ∀ f, p.Reachable f → ∀ r ∈ p.functionBody f, (p.inst r).opcode = .functionCall → ∀ id, (p.inst r).value 0 = .ok id →
    ∃ g ∈ p.module.functions, p.functionKey g = id

def Reaches (p : Program) (graph : Calls) (id : Value) : Prop :=
  ∃ node, graph.nodes.get? id = some node ∧ p.Reachable node.function

/-- A tour from the entry points meets functions only. -/
theorem whole_of_callsFunctions (formed : p.WellFormed) (calls : p.CallsFunctions) (toured : p.entryTour = .ok tour) :
    tour.missing = none := by
  obtain ⟨roots, read, toured⟩ := except_bind_ok_iff.mp toured
  obtain ⟨graph, described, toured⟩ := except_bind_ok_iff.mp toured
  obtain rfl := Except.ok.inj toured
  have described := Calls.ofProgram_describes described
  have listed {id : Value} (function : ∃ f ∈ p.module.functions, p.functionKey f = id) :
      ∃ node, graph.nodes.get? id = some node := by
    obtain ⟨f, member, rfl⟩ := function
    exact Option.isSome_iff_exists.mp (described.known f member)
  cases ended : (graph.tour roots).missing with
  | none => rfl
  | some id =>
    have none := Calls.tourFrom_missing (.start _) ended
    have start : ∀ id ∈ roots, p.Reaches graph id := by
      intro id root
      obtain ⟨r, entry, value⟩ := (except_mem_mapM_ok read).mp root
      obtain ⟨id', value', function⟩ := formed.entryPoints r entry
      obtain rfl := Except.ok.inj (value'.symm.trans value)
      obtain ⟨node, found⟩ := listed function
      exact ⟨node, found, .entry entry value (described.names found)⟩
    have calling : ∀ id node, p.Reaches graph id → graph.nodes.get? id = some node →
        ∀ called ∈ node.callees, p.Reaches graph called := by
      rintro id node ⟨node', found', reachable⟩ found called member
      obtain rfl := Option.some.inj (found'.symm.trans found)
      obtain ⟨ids, callees, same⟩ := described.callees id node' found
      rw [same, List.mem_eraseDups] at member
      obtain ⟨r, inside, call, value⟩ := (mem_callees callees).mp member
      obtain ⟨next, found⟩ := listed (calls _ reachable r inside call called value)
      exact ⟨next, found, reachable.call inside call value (described.names found)⟩
    -- The id that was not found would have been reached, and what is reached is found.
    obtain ⟨node, found, -⟩ := Calls.reached_of_missing start calling ended
    cases none.symm.trans found

theorem pairwise_places {α : Type} {R : α → α → Prop} {entries : List α} (each : entries.Pairwise R)
    (symmetric : ∀ a b, R a b → R b a) {place other : Nat} {a b : α} (first : entries[place]? = some a)
    (second : entries[other]? = some b) (differ : place ≠ other) : R a b := by
  rw [List.pairwise_iff_getElem] at each
  obtain ⟨inside, rfl⟩ := List.getElem?_eq_some_iff.mp first
  obtain ⟨inside', rfl⟩ := List.getElem?_eq_some_iff.mp second
  rcases Nat.lt_or_gt_of_ne differ with before | after
  · exact each place other inside inside' before
  · exact symmetric _ _ (each other place inside' inside after)

def Apart (p : Program) (b c : BlockRef) : Prop :=
  (p.idsOf (p.blockInsts b)).Disjoint (p.idsOf (p.blockInsts c))

theorem Apart.symm {b c : BlockRef} (h : p.Apart b c) : p.Apart c b :=
  List.Disjoint.symm h

theorem listedBlocks_apart (distinct : p.resultIds.Nodup) : p.listedBlocks.Pairwise p.Apart := by
  have whole := (p.idsOf_perm p.allInsts_perm).nodup_iff.mp distinct
  rw [idsOf_append] at whole
  have blocks := (List.nodup_append.mp whole).2.1
  unfold idsOf at blocks
  rw [List.flatMap_assoc, List.nodup_flatMap] at blocks
  exact blocks.2

variable {f g : FuncRef} {place other : Nat} {b c : BlockRef}

theorem Occurs.apart (distinct : p.resultIds.Nodup) (first : p.Occurs f place b) (second : p.Occurs g other c)
    (differ : (f, place) ≠ (g, other)) : p.Apart b c := by
  have all := listedBlocks_apart distinct
  unfold listedBlocks at all
  rw [List.pairwise_flatMap] at all
  -- The places differ in one function, or the functions do.
  by_cases here : f = g
  · subst here
    refine pairwise_places (all.1 f first.1.mem) (fun _ _ => Apart.symm) first.2 second.2 fun again => differ ?_
    rw [again]
  · obtain ⟨index, found⟩ := List.mem_iff_getElem?.mp first.1.mem
    obtain ⟨index', found'⟩ := List.mem_iff_getElem?.mp second.1.mem
    refine pairwise_places all.2 (fun f g h x inside y inside' => (h y inside' x inside).symm) found found'
      (fun again => here ?_) b (List.mem_of_getElem? first.2) c (List.mem_of_getElem? second.2)
    rw [again, found'] at found
    exact (Option.some.inj found).symm

/-- Blocks at different places have different labels. -/
theorem Occurs.label_ne (distinct : p.resultIds.Nodup) (first : p.Occurs f place b) (second : p.Occurs g other c)
    (differ : (f, place) ≠ (g, other)) (labeled : p.blockId b ≠ 0) : p.blockId b ≠ p.blockId c := by
  intro same
  have own (d : BlockRef) (labeled : p.blockId d ≠ 0) : p.blockId d ∈ p.idsOf (p.blockInsts d) :=
    mem_idsOf.mpr ⟨_, List.mem_cons_self .., rfl, labeled⟩
  exact first.apart distinct second differ (own b labeled) (same ▸ own c (same ▸ labeled))

/-- The blocks of a valid program are numbered if the reachable ones have labels and what they call are functions. -/
theorem blockLabels_isOk (formed : p.WellFormed) (named : p.NamesFunctions) (calls : p.CallsFunctions)
    (labeled : ∀ b, p.Traced b → p.blockId b ≠ 0) : ∃ labels, p.blockLabels = .ok labels := by
  obtain ⟨tour, toured⟩ := named.entryTour
  have whole := whole_of_callsFunctions formed calls toured
  obtain ⟨roots, graph, -, -, covers⟩ := entryTour_ok toured whole
  have distinct : tour.visited.Nodup := .of_map _ covers.distinct
  rcases foldlM_labelFunction (fun f member => (mem_visited_iff toured whole).mp member) distinct with
    ⟨labels, numbered⟩ | ⟨violation, -, defect⟩
  · refine ⟨labels, ?_⟩
    unfold blockLabels
    simp only [toured, bind, Except.bind, Tour.foldM, numbered, whole]
    rfl
  · have traced {f : FuncRef} {place : Nat} {b : BlockRef} (occurs : p.Occurs f place b) : p.Traced b :=
      ⟨f, occurs.1, List.mem_of_getElem? occurs.2⟩
    cases defect with
    | unlabeled occurs zero => exact absurd zero (labeled _ (traced occurs))
    | repeated first second differ same =>
      exact absurd same (first.label_ne formed.distinct second differ (labeled _ (traced first)))

theorem WellFormed.bounded_blockId (formed : p.WellFormed) {b : BlockRef} (traced : p.Traced b)
    (labeled : p.blockId b ≠ 0) : 0 < p.blockId b ∧ p.blockId b < p.module.idBound := by
  obtain ⟨f, reached, member⟩ := traced
  refine formed.bounded _ (mem_resultIds.mpr ⟨(p.block b).label, ?_, rfl, labeled⟩)
  exact mem_allInsts.mpr (.inr ⟨b, mem_listedBlocks.mpr ⟨f, reached.mem, member⟩, List.mem_cons_self ..⟩)

/-- There are fewer traced blocks than ids. -/
theorem Traces.length_le (traces : p.Traces labels tour)
    (bounded : ∀ b, p.Traced b → 0 < p.blockId b ∧ p.blockId b < p.module.idBound) :
    (p.tracedBlocks tour).length ≤ p.module.idBound.toNat := by
  let ids := (p.tracedBlocks tour).map p.blockId
  have inside : ids.toFinset ⊆ Finset.Ioo 0 p.module.idBound := by
    intro id member
    obtain ⟨b, among, rfl⟩ := List.mem_map.mp (List.mem_toFinset.mp member)
    exact Finset.mem_Ioo.mpr (bounded b (traces.mem_iff.mp among))
  have few := Finset.card_le_card inside
  rw [List.toFinset_card_of_nodup traces.numbers.distinct, List.length_map, Int.card_Ioo] at few
  omega

/-! ### Modules in which nothing is missing -/

/-- Nothing is missing in the module that a run reads. -/
structure Furnished (p : Program) : Prop where
  labeled : ∀ b, p.Traced b → p.blockId b ≠ 0
  called : ∀ f ∈ p.module.functions, ∀ r ∈ p.functionBody f, (p.inst r).opcode = .functionCall →
    (p.inst r).operands ≠ []
  callees : p.CallsFunctions
  types : p.TypesReadable
  complete : ∀ r ∈ p.module.globals, (p.inst r).Complete

variable (formed : p.WellFormed) (furnished : p.Furnished)
include formed furnished

theorem Furnished.namesFunctions : p.NamesFunctions where
  calls := furnished.called
  entryPoints r entry := by
    obtain ⟨id, value, -⟩ := formed.entryPoints r entry
    unfold Instruction.value at value
    split at value
    next operand found => exact (List.getElem?_eq_some_iff.mp found).1
    next => cases value

theorem Furnished.legible (storage : ∀ r ∈ p.declarations, (p.inst r).StorageNumbered) (closed : p.Closed)
    {b : BlockRef} (traced : p.Traced b) : p.Legible True False := by
  have bounded := formed.bounded_blockId traced (furnished.labeled b traced)
  have complete : p.Complete := fun r member => ⟨closed r (List.mem_append_left _ member), furnished.complete r member⟩
  obtain ⟨distinct, below⟩ := formed.declarations
  refine ⟨Int.lt_trans bounded.1 bounded.2, distinct, below, fun _ => complete, fun _ => ?_, False.elim, False.elim,
    False.elim, False.elim⟩
  exact furnished.types.typeTable_isOk storage complete.annotations

end Program

namespace Run

open Change

variable {σ : Type} {r : Run σ}

/-- A run on a valid module in which nothing is missing ends well, or the ids run out. -/
theorem completes_of_furnished (settings : Settings) {hooks : Hooks σ} (quiet : hooks.Quiet)
    (valid : r.program.validate = .ok ()) (closed : r.program.Closed) (furnished : r.program.Furnished)
    (storage : ∀ i ∈ r.program.declarations, (r.program.inst i).StorageNumbered) :
    (∃ status r', run settings hooks r = .ok status r') ∨ ∃ r', run settings hooks r = .error .idsExhausted r' := by
  have formed := Program.validate_ok_iff.mp valid
  cases ran : run settings hooks r with
  | ok status r' => exact .inl ⟨status, r', rfl⟩
  | error e r' =>
    have outcome := (after_run_spared settings quiet closed
      (fun b traced => furnished.legible formed storage closed traced) fun _ labels tour traces =>
        traces.length_le fun b traced => formed.bounded_blockId traced (furnished.labeled b traced)).of_error ran
    rcases outcome with spared | ⟨unnumbered, -⟩
    · exact .inr ⟨r', by rw [spared.2 True.intro]⟩
    · obtain ⟨labels, labeled⟩ :=
        Program.blockLabels_isOk formed (furnished.namesFunctions formed) furnished.callees furnished.labeled
      cases labeled.symm.trans unnumbered

/-- The sample with a pointer type of the given storage class, a decoration and a name. -/
def pointing (storage : Value) : Program :=
  let integer : Instruction :=
    { opcode := .typeInt, resultId := 8, operands := [.literal (.int 32), .literal (.int 0)] }
  let pointer : Instruction :=
    { opcode := .typePointer, resultId := 9, operands := [⟨.storageClass, storage⟩, .ofId (.int 8)] }
  let decoration : Instruction :=
    { opcode := .decorate, operands := [.ofId (.int 9), .literal (.int 6), .literal (.int 4)] }
  let name : Instruction := { opcode := .name, operands := [.ofId (.int 9), .string (.str "pointer")] }
  let p := (((sample 8).declared integer).declared pointer).made decoration
  ((p.appended .annotations ⟨14⟩).made name).appended .debugs2 ⟨15⟩

def pointingRun (storage : Value) : Run Unit where
  job := { workspace := { program := pointing storage } }
  host := ()

theorem furnished_pointing (storage : Value) (among : storage ∈ [Value.str "12", .str "abc"]) :
    (pointing storage).Furnished := by
  have called : ∀ storage ∈ [Value.str "12", .str "abc"], ∀ f ∈ (pointing storage).module.functions,
      ∀ r ∈ (pointing storage).functionBody f, ((pointing storage).inst r).opcode = .functionCall →
        ∃ g ∈ (pointing storage).module.functions,
          ((pointing storage).inst r).value 0 = .ok ((pointing storage).functionKey g) := by decide
  have labeled : ∀ storage ∈ [Value.str "12", .str "abc"], ∀ f ∈ (pointing storage).module.functions,
      ∀ b ∈ ((pointing storage).function f).blocks, (pointing storage).blockId b ≠ 0 := by decide
  have operands : ∀ storage ∈ [Value.str "12", .str "abc"], ∀ r ∈ (pointing storage).declarations,
      ((pointing storage).inst r).HasOperands := by decide
  have values : ∀ storage ∈ [Value.str "12", .str "abc"], ∀ r ∈ (pointing storage).module.annotations,
      ∀ v ∈ ((pointing storage).inst r).valuesFrom 1, v ∈ [Value.int 6, .int 4] := by decide
  constructor
  case labeled =>
    rintro b ⟨f, reached, member⟩
    exact labeled storage among f reached.mem b member
  case called =>
    revert storage
    decide
  case callees =>
    intro f reached r inside call id value
    obtain ⟨g, member, value'⟩ := called storage among f reached.mem r inside call
    exact ⟨g, member, Except.ok.inj (value'.symm.trans value)⟩
  case types =>
    refine ⟨operands storage among, fun r member _ v value => ?_⟩
    have integer := values storage among r member v value
    simp only [List.mem_cons, List.not_mem_nil, or_false] at integer
    exact integer.elim (fun same => ⟨6, same⟩) fun same => ⟨4, same⟩
  case complete =>
    revert storage
    decide

theorem completes_of_furnished_numeral : (pointing (.str "12")).validate = .ok () ∧
    ((∃ status r', run {} {} (pointingRun (.str "12")) = .ok status r') ∨
      ∃ r', run {} {} (pointingRun (.str "12")) = .error .idsExhausted r') := by
  have valid : (pointing (.str "12")).validate = .ok () := by decide +kernel
  have storage : ∀ i ∈ (pointing (.str "12")).declarations, ((pointing (.str "12")).inst i).StorageNumbered := by
    have read : ∀ i ∈ (pointing (.str "12")).declarations, ((pointing (.str "12")).inst i).opcode = .typePointer →
        ((pointing (.str "12")).inst i).value 0 = .ok (.str "12") := by decide
    have numeral : Value.number? (.str "12") = some 12 := by decide +kernel
    intro i member pointer v value
    obtain rfl := Except.ok.inj ((read i member pointer).symm.trans value)
    exact ⟨12, numeral⟩
  have furnished := furnished_pointing (.str "12") (by simp)
  exact ⟨valid, completes_of_furnished {} Hooks.quiet_default valid (by decide) furnished storage⟩

/-- A storage class that is no numeral stops a run. -/
theorem fails_of_unnumbered_storage : (pointing (.str "abc")).validate = .ok () ∧ (pointing (.str "abc")).Closed ∧
    (pointing (.str "abc")).Furnished ∧
      ∃ r', run {} {} (pointingRun (.str "abc")) = .error (.fault .notANumber) r' := by
  refine ⟨by decide +kernel, by decide, furnished_pointing _ (by simp), _, eq_error_of_error ?_⟩
  decide +kernel

end Run

end BlockTally
