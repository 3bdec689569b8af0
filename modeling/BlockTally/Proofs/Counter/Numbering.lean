import BlockTally.Counter.Run
import BlockTally.Proofs.Calls.BreadthFirst
import BlockTally.Proofs.Contract
import BlockTally.Proofs.Counter.Labels
import BlockTally.Proofs.Exhaustion

/-! How a numbering of the blocks can end.

Where all goes well the numbers are those of a breadth-first order. Otherwise the tour came to an id that is
no function, or a block that it came to has no label of its own. The numbering looks at the module only.
-/

set_option autoImplicit false

namespace BlockTally

namespace Program

/-- The labels of the traced blocks are numbered without gaps, in breadth-first order of the functions. -/
structure NumbersTraced (p : Program) (labels : Labels) : Prop where
  keys : ∀ id, (∃ number, labels.get? id = some number) ↔ ∃ b, p.Traced b ∧ p.blockId b = id
  onto : ∀ number, number < labels.size ↔ ∃ id, labels.get? id = some number
  unique : ∀ id id' number, labels.get? id = some number → labels.get? id' = some number → id = id'
  ordered : ∃ functions, p.InBreadthFirstOrder functions ∧ (∀ f, f ∈ functions ↔ p.Reachable f) ∧
    ∀ place b, (functions.flatMap fun f => (p.function f).blocks)[place]? = some b →
      labels.get? (p.blockId b) = some place

def Occurs (p : Program) (f : FuncRef) (place : Nat) (b : BlockRef) : Prop :=
  p.Reachable f ∧ (p.function f).blocks[place]? = some b

/-- What the errors of a numbering say about the program. -/
inductive LabelDefect (p : Program) : Error → Prop where
  | missing {id : Value} : p.Misses id → LabelDefect p (.illFormed (.missingFunction id))
  | unlabeled {f : FuncRef} {place : Nat} {b : BlockRef} : p.Occurs f place b → p.blockId b = 0 →
      LabelDefect p (.invariant (.unlabeledBlock (p.functionId f)))
  | repeated {f g : FuncRef} {place other : Nat} {b c : BlockRef} : p.Occurs f place b → p.Occurs g other c →
      (f, place) ≠ (g, other) → p.blockId b = p.blockId c →
      LabelDefect p (.invariant (.repeatedLabel (p.blockId c)))

variable {p : Program}

theorem Numbers.mem_of_get {labels : Labels} {blocks : List BlockRef} (h : p.Numbers labels blocks) {id : Id}
    {number : Nat} (found : labels.get? id = some number) : ∃ b, blocks[number]? = some b ∧ p.blockId b = id := by
  have listed : id ∈ (blocks.map p.blockId) := by
    have key := Table.mem_keys_of_get? found
    rwa [Table.keys, h.entries, List.zipIdx_map_fst] at key
  obtain ⟨b, member, rfl⟩ := List.mem_map.mp listed
  obtain ⟨number', found', place⟩ := h.exists_number member
  obtain rfl := Option.some.inj (found.symm.trans found')
  exact ⟨b, place, rfl⟩

theorem Traces.numbersTraced {labels : Labels} {tour : Tour} (distinct : p.FunctionsDistinct)
    (h : p.Traces labels tour) : p.NumbersTraced labels where
  keys id := by
    constructor
    · rintro ⟨number, found⟩
      obtain ⟨b, place, rfl⟩ := h.numbers.mem_of_get found
      exact ⟨b, h.mem_iff.mp (List.mem_of_getElem? place), rfl⟩
    · rintro ⟨b, traced, rfl⟩
      -- The traced blocks are those of the tour, and each of them was numbered.
      obtain ⟨number, found, -⟩ := h.numbers.exists_number (h.mem_iff.mpr traced)
      exact ⟨number, found⟩
  onto number := by
    rw [h.numbers.size]
    constructor
    · intro inside
      exact ⟨_, h.numbers.get (List.getElem?_eq_getElem inside)⟩
    · rintro ⟨id, found⟩
      obtain ⟨b, place, -⟩ := h.numbers.mem_of_get found
      exact (List.getElem?_eq_some_iff.mp place).1
  unique id id' number found found' := by
    obtain ⟨b, place, rfl⟩ := h.numbers.mem_of_get found
    obtain ⟨c, place', rfl⟩ := h.numbers.mem_of_get found'
    rw [Option.some.inj (place.symm.trans place')]
  ordered := by
    refine ⟨tour.visited, ?_, fun f => mem_visited_iff h.toured h.whole, fun place b found => h.numbers.get found⟩
    exact (entryTour_goesThrough distinct h.toured).inBreadthFirstOrder h.whole

/-! ### Where a numbering stops -/

theorem labelBlock_error {f : FuncRef} {labels : Labels} {blocks : List BlockRef} {b : BlockRef} {e : Error}
    (h : p.Numbers labels blocks) (failed : p.labelBlock f labels b = .error e) :
    (p.blockId b = 0 ∧ e = .invariant (.unlabeledBlock (p.functionId f))) ∨
    ∃ c ∈ blocks, p.blockId c = p.blockId b ∧ e = .invariant (.repeatedLabel (p.blockId b)) := by
  unfold labelBlock at failed
  dsimp only at failed
  split at failed
  next zero => exact .inl ⟨zero, (Except.error.inj failed).symm⟩
  split at failed
  next again =>
    obtain ⟨number, found⟩ := Option.isSome_iff_exists.mp again
    obtain ⟨c, place, same⟩ := h.mem_of_get found
    exact .inr ⟨c, List.mem_of_getElem? place, same, (Except.error.inj failed).symm⟩
  next => cases failed

/-- A label that was given out before belongs to two occurrences of blocks, in different functions or at different
places of one. -/
theorem labelDefect_of_again {done rest : List FuncRef} {f : FuncRef} {own later : List BlockRef} {b c : BlockRef}
    (reached : ∀ g ∈ done, p.Reachable g) (distinct : (done ++ f :: rest).Nodup)
    (places : (p.function f).blocks = own ++ b :: later) (occurs : p.Occurs f own.length b)
    (member : c ∈ (done.flatMap fun g => (p.function g).blocks) ++ own) (same : p.blockId c = p.blockId b) :
    p.LabelDefect (.invariant (.repeatedLabel (p.blockId b))) := by
  rcases List.mem_append.mp member with before | here
  · obtain ⟨g, earlier, inside⟩ := List.mem_flatMap.mp before
    obtain ⟨place, found⟩ := List.mem_iff_getElem?.mp inside
    have other : g ≠ f := (List.nodup_append.mp distinct).2.2 g earlier f (List.mem_cons_self ..)
    have occurs' : p.Occurs g place c := ⟨reached g earlier, found⟩
    exact .repeated occurs' occurs (fun pair => other (congrArg Prod.fst pair)) same
  · obtain ⟨place, found⟩ := List.mem_iff_getElem?.mp here
    have inside : place < own.length := (List.getElem?_eq_some_iff.mp found).1
    have occurs' : p.Occurs f place c := ⟨occurs.1, by rw [places, List.getElem?_append_left inside, found]⟩
    exact .repeated occurs' occurs (fun pair => Nat.ne_of_lt inside (congrArg Prod.snd pair)) same

/-- Functions that are visited one after the other are numbered, or a block of one of them has no label of its
own. -/
theorem foldlM_labelFunction {visited : List FuncRef} (reached : ∀ f ∈ visited, p.Reachable f)
    (distinct : visited.Nodup) : (∃ labels, visited.foldlM p.labelFunction {} = .ok labels) ∨
      ∃ violation, visited.foldlM p.labelFunction {} = .error (.invariant violation) ∧
        p.LabelDefect (.invariant violation) := by
  let blocks (fs : List FuncRef) : List BlockRef := fs.flatMap fun f => (p.function f).blocks
  -- Of a function that is numbered to its end or not, the blocks before count like those of the functions before.
  have function (done : List FuncRef) (f : FuncRef) (labels : Labels) (held : p.Numbers labels (blocks done)) :=
    except_foldlM_cases (p.labelBlock f) (p.function f).blocks labels
      (fun own labels => p.Numbers labels (blocks done ++ own)) (by rwa [List.append_nil])
      fun own b _ _ _ _ held labeled => by
        rw [← List.append_assoc]
        exact held.add labeled
  have outcome := except_foldlM_cases p.labelFunction visited {}
    (fun done labels => p.Numbers labels (blocks done)) ⟨rfl, List.nodup_nil, nofun⟩
    fun done f _ labels labels' _ held labeled => by
      rcases function done f labels held with ⟨last, ended, numbers⟩ | ⟨_, _, _, _, e, -, -, -, failed⟩
      · obtain rfl := Except.ok.inj (ended.symm.trans labeled)
        simpa only [blocks, List.flatMap_append, List.flatMap_cons, List.flatMap_nil, List.append_nil] using numbers
      · cases failed.symm.trans labeled
  rcases outcome with ⟨labels, ended, -⟩ | ⟨done, f, rest, labels, e, split, held, stopped, failed⟩
  · exact .inl ⟨labels, ended⟩
  rcases function done f labels held with ⟨_, ended, -⟩ | ⟨own, b, later, here, e', places, numbers, stuck, failed'⟩
  · cases ended.symm.trans stopped
  obtain rfl := Except.error.inj (failed'.symm.trans stopped)
  have occurs : p.Occurs f own.length b := by
    refine ⟨reached f (split ▸ List.mem_append_right _ (List.mem_cons_self ..)), ?_⟩
    rw [places, List.getElem?_append_right (Nat.le_refl _), Nat.sub_self]
    rfl
  rcases labelBlock_error numbers stuck with ⟨zero, rfl⟩ | ⟨c, member, same, rfl⟩
  · exact .inr ⟨_, failed, .unlabeled occurs zero⟩
  exact .inr ⟨_, failed, labelDefect_of_again (fun g earlier => reached g (split ▸ List.mem_append_left _ earlier))
    (split ▸ distinct) places occurs member same⟩

structure NamesFunctions (p : Program) : Prop where
  calls : ∀ f ∈ p.module.functions, ∀ r ∈ p.functionBody f, (p.inst r).opcode = .functionCall →
    (p.inst r).operands ≠ []
  entryPoints : ∀ r ∈ p.module.entryPoints, 2 ≤ (p.inst r).operands.length

theorem NamesFunctions.entryTour (h : p.NamesFunctions) : ∃ tour, p.entryTour = .ok tour := by
  obtain ⟨roots, read⟩ : ∃ roots, p.entryIds = .ok roots :=
    except_mapM_isOk fun r entry => Instruction.value_isOk (h.entryPoints r entry)
  obtain ⟨calls, graph⟩ := CallsFilled.graph h.calls
  refine ⟨calls.tour roots, ?_⟩
  unfold Program.entryTour tourFrom
  rw [read, graph]
  rfl

/-- The blocks are numbered in breadth-first order, or the error tells of a defect. -/
theorem blockLabels_cases (distinct : p.FunctionsDistinct) (named : p.NamesFunctions) :
    (∃ labels, p.blockLabels = .ok labels ∧ p.NumbersTraced labels) ∨
      ∃ e, p.blockLabels = .error e ∧ p.LabelDefect e := by
  obtain ⟨tour, toured⟩ := named.entryTour
  have goes := entryTour_goesThrough distinct toured
  unfold blockLabels
  rcases foldlM_labelFunction (goes.reachable distinct) goes.visited_nodup with
    ⟨labels, numbered⟩ | ⟨violation, failed, defect⟩
  · cases ended : tour.missing with
    | none =>
      have labeled : p.blockLabels = .ok labels := by
        unfold blockLabels
        simp only [toured, bind, Except.bind, Tour.foldM, numbered, ended]
        rfl
      obtain ⟨tour', traces⟩ := blockLabels_ok labeled
      exact .inl ⟨labels, labeled, traces.numbersTraced distinct⟩
    | some id =>
      refine .inr ⟨_, ?_, .missing (goes.misses ended)⟩
      simp only [toured, bind, Except.bind, Tour.foldM, numbered, ended]
      rfl
  · refine .inr ⟨_, ?_, defect⟩
    simp only [toured, bind, Except.bind, Tour.foldM, failed]

end Program

namespace Run

open Change

variable {σ : Type}

/-- The numbering of a run leaves everything as it was. It numbers the traced blocks in breadth-first order, or it
fails with an error that tells of a defect; if there is no defect, it does not fail. -/
theorem blockLabels_outcome {r : Run σ} (distinct : r.program.FunctionsDistinct) (named : r.program.NamesFunctions) :
    After (do (← get).program.blockLabels : Running σ Labels) r
      (fun labels r' => r' = r ∧ r.program.NumbersTraced labels)
      (fun e r' => r' = r ∧ r.program.LabelDefect e) ∧
    ((∀ e, ¬r.program.LabelDefect e) → ∃ labels, r.program.blockLabels = .ok labels) := by
  have cases := Program.blockLabels_cases distinct named
  constructor
  · refine After.bind_get (After.check (fun labels labeled => ⟨rfl, ?_⟩) fun e failed => ⟨rfl, ?_⟩)
    · rcases cases with ⟨labels', labeled', numbers⟩ | ⟨_, failed, -⟩
      · obtain rfl := Except.ok.inj (labeled'.symm.trans labeled)
        exact numbers
      · cases failed.symm.trans labeled
    · rcases cases with ⟨_, labeled, -⟩ | ⟨e', failed', defect⟩
      · cases labeled.symm.trans failed
      · obtain rfl := Except.error.inj (failed'.symm.trans failed)
        exact defect
  · intro sound
    rcases cases with ⟨labels, labeled, -⟩ | ⟨e, -, defect⟩
    · exact ⟨labels, labeled⟩
    · exact absurd defect (sound e)

/-- A run on two functions that call each other, the first of them an entry point twice. -/
def circle : Run Unit where
  job := { workspace := { program := {
    instructions := ⟨#[
      { instruction := { opcode := .entryPoint, operands := [.literal (.int 5), .ofId (.int 1)] } },
      { instruction := { opcode := .function, typeId := 9, resultId := 1 } },
      { instruction := { opcode := .label, resultId := 2 } },
      { instruction := { opcode := .functionCall, typeId := 9, resultId := 3, operands := [.ofId (.int 4)] } },
      { instruction := { opcode := .functionEnd } },
      { instruction := { opcode := .function, typeId := 9, resultId := 4 } },
      { instruction := { opcode := .label, resultId := 5 } },
      { instruction := { opcode := .label, resultId := 6 } },
      { instruction := { opcode := .functionCall, typeId := 9, resultId := 7, operands := [.ofId (.int 1)] } },
      { instruction := { opcode := .functionEnd } }]⟩
    blocks := ⟨#[{ label := ⟨2⟩, body := [⟨3⟩] }, { label := ⟨6⟩ }, { label := ⟨7⟩, body := [⟨8⟩] }]⟩
    functions := ⟨#[
      { definition := ⟨1⟩, blocks := [⟨0⟩], endMark := ⟨4⟩ },
      { definition := ⟨5⟩, blocks := [⟨2⟩, ⟨1⟩], endMark := ⟨9⟩ }]⟩
    module := { idBound := 8, entryPoints := [⟨0⟩, ⟨0⟩], functions := [⟨1⟩, ⟨0⟩] } } } }
  host := ()

theorem blockLabels_outcome_circle : circle.program.FunctionsDistinct ∧ circle.program.NamesFunctions ∧
    ∃ labels, circle.program.blockLabels = .ok labels ∧ circle.program.NumbersTraced labels ∧
      labels.entries = [(2, 0), (6, 1), (5, 2)] := by
  have distinct : circle.program.FunctionsDistinct := by decide
  have named : circle.program.NamesFunctions := ⟨by decide, by decide⟩
  have labeled : circle.program.blockLabels = .ok ⟨[(2, 0), (6, 1), (5, 2)]⟩ := by decide +kernel
  have ran : (do (← get).program.blockLabels : Running Unit Labels) circle =
      .ok ⟨[(2, 0), (6, 1), (5, 2)]⟩ circle := by rw [get_bind, labeled]; rfl
  exact ⟨distinct, named, _, labeled, ((blockLabels_outcome distinct named).1.of_ok ran).2, rfl⟩

end Run

end BlockTally
