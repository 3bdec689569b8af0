import BlockTally.Counter.Buffer
import BlockTally.Proofs.Workspace.FactFinding
import BlockTally.Proofs.Workspace.Sound
import BlockTally.Proofs.Workspace.Tracking

/-! Requests, step by step.

Whatever is asked of a workspace, the answer is worked out in steps of a few kinds: facts are found, declarations take
ids, and new instructions are listed and told to the facts. A request that fails has gone a part of the way, and may
have taken an id for nothing. What each kind of step keeps is therefore kept by all requests.
-/

set_option autoImplicit false

namespace BlockTally.Workspace

open Account Contract

def annotated (w : Workspace) (r : InstRef) (found : Option Annotations) : Workspace where
  program := (w.listed .annotations r).program
  facts := { (w.listed .annotations r).facts with annotations := found }

def featured (w : Workspace) (place : Section) (i : Instruction) (change : Features → Features) : Workspace where
  program := (w.program.made i).appended place ⟨w.program.instructions.size⟩
  facts := { w.facts with features := w.facts.features.map change }

inductive Note (target : Value) (w : Workspace) : Workspace → Prop where
  | find {w' : Workspace} (find : w.Find w') : Note target w w'
  | annotate {opcode : Opcode} {operands : List Operand} {a : Annotations}
      (decorates : opcode = .decorate ∨ opcode = .memberDecorate)
      (literal : ∀ operand ∈ operands, operand.isId = false)
      (analyzed : ∃ b, w.facts.annotations = some b ∧
        b.analyze (w.program.made { opcode, operands := .ofId target :: operands })
          ⟨w.program.instructions.size⟩ = .ok a) :
      Note target w ({ w with program := w.program.made { opcode, operands := .ofId target :: operands } }.annotated
        ⟨w.program.instructions.size⟩ (some a))

/-- A step that neither declares nor decorates. What is named, or listed in an interface, is a target; a capability that
is told to the features is a number, or one of the texts. -/
inductive Aside (texts targets : Set Value) (w : Workspace) : Workspace → Prop where
  | find {w' : Workspace} (find : w.Find w') : Aside texts targets w w'
  | name {i : Instruction} (noResult : i.resultId = 0) (plain : i.opcode ≠ .constant)
      (used : ∀ v ∈ i.usedIds, v ∈ targets) :
      Aside texts targets w ({ w with program := w.program.made i }.listed .debugs2 ⟨w.program.instructions.size⟩)
  | capability {c : Value} {number : Int} (read : c.number = .ok number)
      (told : w.facts.features ≠ none → Features.SpelledAs texts (.int number) c) :
      Aside texts targets w (w.featured .capabilities
        { opcode := .capability, operands := [⟨.capability, .int number⟩] } (·.addCapability c))
  | extension (text : Value) : Aside texts targets w (w.featured .extensions
      { opcode := .extension, operands := [.string text] } (·.addExtension text))
  | lengthen {r : InstRef} {operand : Operand} (late : Version.v1_4 ≤ w.program.module.version)
      (entry : r ∈ w.program.module.entryPoints) (isId : operand.isId = true) (used : operand.value ∈ targets) :
      Aside texts targets w (w.longer r operand)

inductive Step (texts : Set Value) (w : Workspace) : Workspace → Prop where
  | aside {targets : Set Value} {w' : Workspace} (aside : w.Aside texts targets w') : Step texts w w'
  | types (t : TypeTable) : Step texts w { w with facts := { w.facts with types := some t } }
  | constants (t : ConstantTable) : Step texts w { w with facts := { w.facts with constants := some t } }
  /-- A declaration takes the next id. -/
  | declare {i : Instruction} (free : w.program.module.idBound < maxIdBound)
      (result : i.resultId = w.program.module.idBound) :
      Step texts w
        ({ w with program := w.program.nextBound.made i }.listed .typesValues ⟨w.program.instructions.size⟩)
  | annotate {i : Instruction} {a b : Annotations} (noResult : i.resultId = 0) (known : w.facts.annotations = some b)
      (analyzed : b.analyze (w.program.made i) ⟨w.program.instructions.size⟩ = .ok a) :
      Step texts w ({ w with program := w.program.made i }.annotated ⟨w.program.instructions.size⟩ (some a))

/-- An id is taken for nothing, since the request fails. -/
inductive Loses (w : Workspace) : Workspace → Prop where
  | id (free : w.program.module.idBound < maxIdBound) : Loses w { w with program := w.program.nextBound }

def notes (target : Value) : Contract Workspace :=
  inSteps (Note target)

def asides (texts targets : Set Value) : Contract Workspace :=
  inSteps (Aside texts targets)

def steps (texts : Set Value) : Account Workspace :=
  walk (Step texts) Loses

variable {α : Type} {texts targets : Set Value} {target : Value} {w w' : Workspace} {r : InstRef} {place : Section}

theorem Find.program_eq (find : w.Find w') : w'.program = w.program :=
  find.looks.1

theorem Aside.program_extends (h : w.Aside texts targets w') : w.program.Extends w'.program := by
  cases h with
  | find find => exact find.program_eq ▸ .refl _
  | name | capability | extension =>
    exact ⟨(Program.grows_made _ _).trans (Program.grows_appended _ _ rfl), rfl⟩
  | lengthen _ entry => exact ⟨Program.grows_withOperand _ entry, rfl⟩

theorem Step.program_extends (h : w.Step texts w') : w.program.Extends w'.program := by
  cases h with
  | aside aside => exact aside.program_extends
  | types | constants => exact .refl _
  | declare free => exact ⟨Program.grows_declared free _, rfl⟩
  | annotate => exact ⟨(Program.grows_made _ _).trans (Program.grows_appended _ _ rfl), rfl⟩

/-- Steps leave the blocks alone. -/
theorem extends_of_steps (h : (steps texts).moves w w') : w.program.Extends w'.program := by
  induction h with
  | refl => exact .refl _
  | tail _ step ih => exact ih.trans step.program_extends

theorem Find.annotations_eq (find : w.Find w') (known : w.facts.annotations.isSome = true) :
    w'.facts.annotations = w.facts.annotations := by
  cases find with
  | uses | features => rfl
  | annotations unread =>
    rw [unread] at known
    cases known

/-! ### Ids and instructions -/

theorem after_takeId {good : Id → Workspace → Prop} {bad : Error → Workspace → Prop}
    (exhausted : maxIdBound ≤ w.program.module.idBound → bad .idsExhausted w)
    (taken : w.program.module.idBound < maxIdBound →
      good w.program.module.idBound { w with program := w.program.nextBound }) :
    Change.After (liftM Program.takeId : Action Id) w good bad :=
  Change.After.within (Program.after_takeId exhausted taken)

theorem after_newInst {i : Instruction} {good : InstRef → Workspace → Prop} {bad : Error → Workspace → Prop}
    (made : good ⟨w.program.instructions.size⟩ { w with program := w.program.made i }) :
    Change.After (liftM (Program.newInst i) : Action InstRef) w good bad :=
  Change.After.within (Program.after_newInst made)

theorem after_listed {good : Unit → Workspace → Prop} {bad : Error → Workspace → Prop}
    (h : good () (w.listed place r)) : Change.After (do
      Program.append place r
      record r : Action Unit) w good bad :=
  Change.After.bind (Change.After.within (Program.after_append (Change.After.modify h)))

theorem after_addGlobal {good : Unit → Workspace → Prop} {bad : Error → Workspace → Prop}
    (listed : ∀ uses, good () { program := w.program.appended .typesValues r, facts := { w.facts with uses } }) :
    Change.After (addGlobal r) w good bad :=
  after_listed (listed _)

theorem after_longer {operand : Operand} {good : Unit → Workspace → Prop} {bad : Error → Workspace → Prop}
    (held : good () (w.longer r operand)) : Change.After (do
      Program.addOperand r operand
      recordUses r : Action Unit) w good bad :=
  Change.After.bind (Change.After.within (Program.after_addOperand (Change.After.modify held)))

/-- An annotation is listed; where the annotations are known, that fails if it has no target. -/
theorem after_addAnnotation : Change.After ( addAnnotation r) w
    (fun _ w' => ∃ found : Option Annotations, w' = w.annotated r found ∧
      (w.facts.annotations.isSome = true → found.isSome = true) ∧
      ∀ a', found = some a' → ∃ a, w.facts.annotations = some a ∧ a.analyze w.program r = .ok a')
    fun _ _ => (w.program.inst r).annotates = true ∧ ∀ v, (w.program.inst r).value 0 ≠ .ok v := by
  unfold addAnnotation
  refine .bind (.within (Program.after_append (.bind (.modify (.bind_get ?_)))))
  dsimp only
  split
  next unknown =>
    refine .pure ⟨none, by rw [annotated, ← unknown]; rfl, fun known => ?_, nofun⟩
    rwa [unknown] at known
  next a known =>
    refine .bind (.check (fun a' analyzed => .modify ⟨some a', rfl, fun _ => rfl, fun b found => ?_⟩)
      fun e failed => ?_)
    · obtain rfl := Option.some.inj found
      exact ⟨a, known, analyzed⟩
    -- The analysis fails for want of a target only.
    · have analyzed : a.analyze (w.program.appended .annotations r) r = .error e := failed
      unfold Annotations.analyze at analyzed
      rw [Program.inst_appended] at analyzed
      split at analyzed
      next annotates =>
        refine ⟨annotates, fun v named => ?_⟩
        rw [named] at analyzed
        cases analyzed
      next => cases analyzed

/-! ### Decorations -/

def Annotated (w : Workspace) (target : Value) : Prop :=
  ∃ a, w.facts.annotations = some a ∧ a.on target ≠ []

theorem Annotated.later {other : Value} (h : w.Annotated target) (note : w.Note other w') : w'.Annotated target := by
  obtain ⟨a, found, some⟩ := h
  cases note with
  | find find => exact ⟨a, (find.annotations_eq (by rw [found]; rfl)).trans found, some⟩
  | annotate _ _ analyzed =>
    obtain ⟨b, known, step⟩ := analyzed
    obtain rfl := Option.some.inj (known.symm.trans found)
    refine ⟨_, rfl, ?_⟩
    rw [Annotations.on_analyze step]
    split
    · exact List.append_ne_nil_of_left_ne_nil some _
    · exact some

theorem notes_of_finds {change : Action α} {post : α → Workspace → Prop} (h : finds.Keeps change w post) :
    (notes target).Keeps change w post :=
  keeps_of_inSteps (fun _ find => .single (.find find)) h

theorem notes_annotate {a : Annotations} (found : w.facts.annotations = some a) (target : Value) {opcode : Opcode}
    {operands : List Operand} (decorates : opcode = .decorate ∨ opcode = .memberDecorate)
    (literal : ∀ operand ∈ operands, operand.isId = false) :
    (notes target).Keeps (annotate a target opcode operands) w fun _ w' => w'.Annotated target := by
  unfold annotate
  apply Keeps.bind_get
  split
  next r old =>
    have member : r ∈ a.on target := List.mem_of_find?_eq_some old
    exact Keeps.pure ⟨a, found, List.ne_nil_of_mem member⟩
  next =>
    let i : Instruction := { opcode, operands := .ofId target :: operands }
    have own : i.target? = some target := by rcases decorates with rfl | rfl <;> rfl
    refine Change.After.bind (after_newInst (Change.After.bind (Change.After.mono after_addAnnotation ?_ ?_)))
    · rintro _ _ ⟨noted, rfl, known, analyzed⟩
      obtain ⟨b, rfl⟩ := Option.isSome_iff_exists.mp (known (by rw [found]; rfl))
      obtain ⟨c, before, step⟩ := analyzed b rfl
      refine Change.After.pure ⟨.single (.annotate decorates literal ⟨c, before, step⟩), b, rfl, ?_⟩
      rw [Annotations.on_analyze step, Program.inst_made, if_pos own]
      exact List.append_ne_nil_of_right_ne_nil _ (List.cons_ne_nil _ _)
    -- The target is the first operand.
    · intro e w₂ none
      refine absurd ?_ (none.2 target)
      rw [Program.inst_made]
      rfl

theorem notes_decorate (target : Value) (decoration : Decoration) :
    (notes target).Keeps (decorate target decoration) w fun _ w' => w'.Annotated target := by
  unfold decorate
  refine (notes_of_finds finds_needAnnotations).bind fun a w₁ _ found => ?_
  split
  next d values =>
    refine (Keeps.check d.number_onlyFaults.sparesIds).bind fun number w₂ _ read => ?_
    obtain ⟨-, rfl⟩ := read
    refine notes_annotate found.1 target (.inl rfl) ?_
    simp [Operand.literal, Operand.isId, OperandKind.isId]
  · exact Keeps.throw nofun

theorem notes_decorateMember (target : Value) (decoration : Decoration) :
    (notes target).Keeps (decorateMember target decoration) w fun _ w' => w'.Annotated target := by
  unfold decorateMember
  refine (notes_of_finds finds_needAnnotations).bind fun a w₁ _ found => ?_
  split
  next member d values =>
    refine (Keeps.check d.number_onlyFaults.sparesIds).bind fun number w₂ _ read => ?_
    obtain ⟨-, rfl⟩ := read
    refine notes_annotate found.1 target (.inr rfl) ?_
    simp [Operand.literal, Operand.isId, OperandKind.isId]
  · exact Keeps.throw nofun

/-- Decorations are attached one after the other; if there are any, the target is annotated. -/
theorem notes_decorations (target : Value) (ds : List Decoration) :
    (notes target).Keeps (ds.forM fun d => discard <| decorate target d) w
      fun _ w' => ds ≠ [] → w'.Annotated target := by
  have later {w w' : Workspace} (move : (notes target).moves w w') (h : w.Annotated target) : w'.Annotated target := by
    induction move with
    | refl => exact h
    | tail _ note ih => exact ih.later note
  cases ds with
  | nil => exact Keeps.pure fun some => absurd rfl some
  | cons d rest =>
    have first : (notes target).Keeps (discard <| decorate target d) w fun _ w' => w'.Annotated target :=
      Change.After.discard (notes_decorate target d)
    refine first.bind fun _ w₁ _ annotated => ?_
    exact (Keeps.forM fun d _ _ _ => (notes_decorate target d).discard).mono fun _ _ move _ _ => later move annotated

theorem notes_memberDecorations (target : Value) (ds : List Decoration) :
    (notes target).Keeps (ds.forM fun d => discard <| decorateMember target d) w fun _ _ => True :=
  Keeps.forM fun d _ _ _ => (notes_decorateMember target d).discard

/-! ### Names, features and interfaces -/

theorem asides_of_finds {change : Action α} {post : α → Workspace → Prop} (h : finds.Keeps change w post) :
    (asides texts targets).Keeps change w post :=
  keeps_of_inSteps (fun _ find => .single (.find find)) h

/-- A capability is declared by its number and told as it was given. -/
theorem asides_addCapability {c : Value} (told : ∀ number, c.number = .ok number → w.facts.features ≠ none →
    Features.SpelledAs texts (.int number) c) : (asides texts targets).Keeps (addCapability c) w fun _ _ => True := by
  unfold addCapability
  refine (Keeps.check c.number_onlyFaults.sparesIds).bind fun number w' _ held => ?_
  obtain ⟨read, rfl⟩ := held
  exact Change.After.ran rfl ⟨.single (.capability read (told number read)), True.intro⟩

theorem asides_addExtension (text : Value) : (asides texts targets).Keeps (addExtension text) w fun _ _ => True :=
  Change.After.ran rfl ⟨.single (.extension text), True.intro⟩

theorem asides_addBufferNames {bufferType buffer : Value} (typed : bufferType ∈ targets) (named : buffer ∈ targets) :
    (asides texts targets).Keeps (addBufferNames bufferType buffer) w fun _ _ => True := by
  have nameOp : Opcode.name ≠ .constant := by decide
  have memberOp : Opcode.memberName ≠ .constant := by decide
  -- A name uses nothing but its target.
  have aside {w : Workspace} {i : Instruction} {target : Value} (noResult : i.resultId = 0)
      (plain : i.opcode ≠ .constant) (uses : i.usedIds = [target]) (known : target ∈ targets) :
      Aside texts targets w _ :=
    .name noResult plain fun v used => List.mem_singleton.mp (uses ▸ used) ▸ known
  unfold addBufferNames
  refine Keeps.bind_get ((Keeps.check (anyNames_onlyFaults _ _ _).sparesIds).bind fun known w₁ _ _ => ?_)
  have last {w : Workspace} : (asides texts targets).Keeps (do
      addName (← Program.newInst
        { opcode := .name, operands := [.ofId buffer, .string (.str CounterBuffer.variableName)] })) w
      fun _ _ => True :=
    Change.After.ran rfl ⟨.single (aside rfl nameOp rfl named), True.intro⟩
  split
  · exact last
  · refine Change.After.bind (after_newInst (Change.After.bind (after_listed ?_)))
    refine Keeps.after_move ?_ (.single (aside rfl nameOp rfl typed))
    refine Change.After.bind (after_newInst (Change.After.bind (after_listed ?_)))
    exact last.after_move (.single (aside rfl memberOp rfl typed))

theorem asides_provideExtension : (asides texts targets).Keeps provideExtension w fun _ _ => True := by
  unfold provideExtension
  refine (asides_of_finds finds_needFeatures).seq fun features w₁ _ => Keeps.bind_get ?_
  split
  · exact Keeps.pure True.intro
  · exact asides_addExtension _

theorem asides_provideCapability (capability : Int) :
    (asides texts targets).Keeps (provideCapability capability) w fun _ _ => True := by
  unfold provideCapability
  refine (asides_of_finds finds_needFeatures).seq fun features w₁ _ => ?_
  split
  · exact Keeps.pure True.intro
  · exact asides_addCapability fun number read _ => .inl (congrArg Value.int (Except.ok.inj read))

theorem asides_provideWideCounters : (asides texts targets).Keeps provideWideCounters w fun _ _ => True := by
  unfold provideWideCounters
  exact (asides_provideCapability _).seq fun _ _ _ => asides_provideCapability _

theorem asides_extendInterfaces {id : Id} (known : .int id ∈ targets) :
    (asides texts targets).Keeps (extendInterfaces id) w fun _ _ => True := by
  unfold extendInterfaces
  refine Keeps.bind_get ?_
  dsimp only
  split
  next late =>
    refine Keeps.forM fun r member w₁ move => after_longer ⟨.single (.lengthen ?_ ?_ rfl known), True.intro⟩
    all_goals
      have walked : (steps texts).moves w w₁ := walk_moves_mono .aside move
      have same := (extends_of_steps walked).module
    · rwa [same.version]
    · rw [same.entryPoints]
      exact member
  next => exact Keeps.pure True.intro

end BlockTally.Workspace
