import BlockTally.Proofs.Workspace.Steps

/-! Requests in a workspace whose facts follow the program.

Whatever a request adds, the facts know of it when the request is done. This holds for requests that fail as well:
what they had added by then was told to the facts.
-/

set_option autoImplicit false

namespace BlockTally.Workspace

open Account Contract

def upkeep (texts : Set Value) : Contract Workspace where
  moves w w' := w.program.Extends w'.program ∧ (w.Tracked texts → w'.Tracked texts)
  exhausted _ := True
  refl _ := ⟨.refl _, fun h => h⟩
  trans first second := ⟨first.1.trans second.1, fun h => second.2 (first.2 h)⟩

variable {α : Type} {texts : Set Value} {w w' : Workspace} {r : InstRef} {place : Section}

/-! ### Listing new instructions -/

/-- A new instruction without a result may be listed anywhere. -/
theorem Tracked.unlisted_made (h : w.Tracked texts) {i : Instruction} (noResult : i.resultId = 0) :
    (w.program.made i).Unlisted place ⟨w.program.instructions.size⟩ where
  held := Nat.lt_of_lt_of_eq (Nat.lt_succ_self _) (w.program.size_made i).symm
  new := h.orderly.next
  result := by
    rw [w.program.inst_made, noResult]
    exact .inl fun member => (Program.mem_resultIds.mp member).elim fun _ listed => listed.2.2 rfl

/-- A declaration takes the next id, which no function defines. -/
theorem Tracked.unlisted_declared (h : w.Tracked texts) {i : Instruction}
    (result : i.resultId = w.program.module.idBound) :
    (w.program.nextBound.made i).Unlisted .typesValues ⟨w.program.instructions.size⟩ := by
  refine ⟨?_, h.orderly.next, .inr ⟨rfl, ?_⟩⟩
  · exact Nat.lt_of_lt_of_eq (Nat.lt_succ_self _) (w.program.nextBound.size_made i).symm
  · have inst : (w.program.nextBound.made i).inst ⟨w.program.instructions.size⟩ = i := w.program.nextBound.inst_made i
    rw [inst, result, h.orderly.nextBound.idsOf_made i]
    exact fun member => Int.lt_irrefl _ (h.orderly.taken _ member)

theorem moves_listed (h : w.Tracked texts) (plain : place = .typesValues ∨ place = .debugs2)
    (new : w.program.Unlisted place r) : (upkeep texts).moves w (w.listed place r) := by
  have isOpen : place.isOpen = true := by rcases plain with rfl | rfl <;> rfl
  exact ⟨⟨Program.grows_appended _ r isOpen, rfl⟩, fun _ => h.listed plain new⟩

theorem follows_addGlobal (h : w.Tracked texts) (new : w.program.Unlisted .typesValues r) :
    (upkeep texts).Keeps (addGlobal r) w fun _ _ => True :=
  after_listed ⟨moves_listed h (.inl rfl) new, True.intro⟩

theorem follows_addName (h : w.Tracked texts) (new : w.program.Unlisted .debugs2 r) :
    (upkeep texts).Keeps (addName r) w fun _ _ => True :=
  after_listed ⟨moves_listed h (.inr rfl) new, True.intro⟩

/-- An annotation is listed; where the annotations are known, that fails if it has no target. -/
theorem after_attach (h : w.Tracked texts) (new : w.program.Unlisted .annotations r) :
    Change.After ( addAnnotation r) w (fun _ w' => (upkeep texts).moves w w')
      fun _ _ => ∀ v, (w.program.inst r).value 0 ≠ .ok v := by
  refine Change.After.mono after_addAnnotation ?_ fun _ _ failed => failed.2
  rintro _ _ ⟨found, rfl, -, analyzed⟩
  exact ⟨⟨Program.grows_appended _ r rfl, rfl⟩, fun _ => h.annotated new analyzed⟩

/-! ### Features -/

/-- A new feature is adjoined to the known ones. -/
theorem Tracked.featured (h : w.Tracked texts) {i : Instruction} (isOpen : place.isOpen = true)
    (noResult : i.resultId = 0) (noUses : i.useSites = []) (change : Features → Features)
    (annotations : ((w.program.made i).appended place ⟨w.program.instructions.size⟩).module.annotations =
      w.program.module.annotations)
    (reads : ∀ f, w.facts.features = some f → f.Reads texts w.program →
      (change f).Reads texts ((w.program.made i).appended place ⟨w.program.instructions.size⟩)) :
    (w.featured place i change).Tracked texts := by
  refine h.declared isOpen noResult noUses ⟨fun a known => ?_, fun f known => ?_⟩
  · unfold Annotations.ofProgram
    rw [annotations]
    refine Annotations.foldlM_extended (h.reading.annotations a known) fun r member => ⟨[], ?_⟩
    rw [Program.inst_appended, Instruction.extended_nil]
    exact Program.inst_made_of_lt i (h.orderly.closed r (Program.mem_allInsts_of_list .annotations member))
  · obtain ⟨f, before, rfl⟩ := Option.map_eq_some_iff.mp known
    exact reads f before (h.reading.features f before)

/-- What the module lists has been made. -/
theorem Tracked.held (h : w.Tracked texts) : ∀ place, ∀ r ∈ w.program.module.list place, w.program.Holds r :=
  fun place r member => h.orderly.closed r (Program.mem_allInsts_of_list place member)

theorem Find.tracked (find : w.Find w') (h : w.Tracked texts) : w'.Tracked texts := by
  cases find with
  | uses =>
    refine ⟨h.orderly, ⟨h.reading.annotations, h.reading.features⟩, fun u found => ?_⟩
    obtain rfl := Option.some.inj found
    exact Uses.ofProgram_indexes h.orderly.distinct
  | annotations _ read =>
    refine ⟨h.orderly, ⟨fun b found => ?_, h.reading.features⟩, h.uses⟩
    obtain rfl := Option.some.inj found
    exact read
  | features read =>
    refine ⟨h.orderly, ⟨h.reading.annotations, fun g found => ?_⟩, h.uses⟩
    obtain rfl := Option.some.inj found
    exact Features.reads_ofProgram read

/-- One step that declares nothing leaves the facts with the program. -/
theorem Tracked.aside {targets : Set Value} (h : w.Tracked texts) (aside : w.Aside texts targets w') :
    w'.Tracked texts := by
  cases aside with
  | find find => exact find.tracked h
  | name noResult => exact (h.made _).listed (.inr rfl) (h.unlisted_made noResult)
  | capability read told =>
    refine h.featured rfl rfl rfl _ rfl fun f known reads => reads.capability h.held (told ?_)
    rw [known]
    exact Option.some_ne_none f
  | extension text => exact h.featured rfl rfl rfl _ rfl fun _ _ reads => reads.extension h.held text
  | @lengthen _ operand _ entry => exact h.longer operand (Program.mem_allInsts_of_list .entryPoints entry)

/-! ### Steps -/

/-- One step leaves the facts with the program. -/
theorem Tracked.step (h : w.Tracked texts) (step : w.Step texts w') : w'.Tracked texts := by
  cases step with
  | aside aside => exact h.aside aside
  | types | constants => exact ⟨h.orderly, ⟨h.reading.annotations, h.reading.features⟩, h.uses⟩
  | declare free result => exact (h.nextBound.made _).listed (.inl rfl) (h.unlisted_declared result)
  | @annotate _ _ b noResult known analyzed =>
    exact (h.made _).annotated (h.unlisted_made noResult) fun a' found => ⟨b, known, Option.some.inj found ▸ analyzed⟩

theorem Step.upkeep (step : w.Step texts w') : (upkeep texts).moves w w' :=
  ⟨step.program_extends, fun h => h.step step⟩

theorem upkeep_of_steps (h : (steps texts).moves w w') : (upkeep texts).moves w w' :=
  moves_of_walk (A := (upkeep texts).account) (fun _ => Step.upkeep) h

/-- An id that is taken for nothing is only missing. -/
theorem upkeep_of_loses (lost : w.Loses w') : (upkeep texts).moves w w' := by
  cases lost with
  | id free => exact ⟨⟨Program.grows_nextBound free, rfl⟩, fun h => h.nextBound⟩

theorem upkeep_of_fails {e : Error} (h : (steps texts).fails w e w') : (upkeep texts).moves w w' :=
  moves_of_fails (A := (upkeep texts).account) (fun _ => Step.upkeep) upkeep_of_loses h

/-- Requests are made in steps. -/
theorem follows {change : Action α} {post : α → Workspace → Prop} (h : (steps texts).Keeps change w post) :
    (upkeep texts).Keeps change w post :=
  h.into (fun _ => upkeep_of_steps) fun _ _ failed => ⟨upkeep_of_fails failed, fun _ => True.intro⟩

end BlockTally.Workspace
