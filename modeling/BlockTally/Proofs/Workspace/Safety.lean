import BlockTally.Proofs.Workspace.Types

/-! Safe edits of a workspace.

Edits read the first operands of names, of features and of annotations. Where none of these is missing, an edit fails
only if it takes an id and there is none; and in any case its errors say nothing about the form of the module.
-/

set_option autoImplicit false

namespace BlockTally

namespace Change

variable {σ α β : Type} {shaped : Prop} {s : σ}

abbrev Safe (shaped : Prop) (change : Change σ α) (s : σ) (post : α → σ → Prop) : Prop :=
  After change s post fun e _ => e.Spared shaped

theorem Safe.mono {change : Change σ α} {post post' : α → σ → Prop} (h : Safe shaped change s post)
    (weaker : ∀ a t, post a t → post' a t) : Safe shaped change s post' :=
  After.mono h weaker fun _ _ spared => spared

theorem Safe.bind {change : Change σ α} {next : α → Change σ β} {post : α → σ → Prop} {last : β → σ → Prop}
    (first : Safe shaped change s post) (rest : ∀ a t, post a t → Safe shaped (next a) t last) :
    Safe shaped (change >>= next) s last :=
  After.bind (After.mono first rest fun _ _ spared => spared)

theorem safe_check {result : Except Error α} (kind : FailsOnly (fun e => ¬e.IsFormal) result)
    (passes : shaped → ∃ a, result = .ok a) :
    Safe shaped (liftM result : Change σ α) s fun a t => result = .ok a ∧ t = s := by
  refine After.check (fun a found => ⟨found, rfl⟩) fun e failed => ⟨kind e failed, fun assumed => ?_⟩
  obtain ⟨a, passed⟩ := passes assumed
  cases passed.symm.trans failed

end Change

def Instruction.Complete (i : Instruction) : Prop :=
  i.opcode ∈ [Opcode.name, .capability, .extension, .decorate, .memberDecorate] → i.operands ≠ []

instance (i : Instruction) : Decidable i.Complete :=
  inferInstanceAs (Decidable (_ → _))

theorem Instruction.Complete.value {i : Instruction} (h : i.Complete)
    (read : i.opcode ∈ [Opcode.name, .capability, .extension, .decorate, .memberDecorate]) :
    ∃ v, i.value 0 = .ok v :=
  value_isOk (List.length_pos_iff.mpr (h read))

theorem Instruction.complete_of_operands {i : Instruction} (some : i.operands ≠ []) : i.Complete :=
  fun _ => some

theorem Instruction.Complete.extended {i : Instruction} (h : i.Complete) (more : List Operand) :
    (i.extended more).Complete := by
  intro read
  exact List.append_ne_nil_of_left_ne_nil (h read) more

def Decoration.Numbered : Decoration → Prop
  | d :: _ => ∃ number, d.number = .ok number
  | [] => False

theorem Decoration.numbered_cons (number : Int) (values : List Value) : Numbered (.int number :: values) :=
  ⟨number, rfl⟩

namespace Program

def Complete (p : Program) : Prop :=
  ∀ r ∈ p.module.globals, p.Holds r ∧ (p.inst r).Complete

variable {p q : Program}

theorem Complete.of_list (h : p.Complete) (place : Section) {r : InstRef} (member : r ∈ p.module.list place) :
    (p.inst r).Complete :=
  (h r (mem_globals.mpr (.inr ⟨place, member⟩))).2

theorem Complete.of_grows (h : p.Complete) (grows : p.Grows q)
    (new : ∀ r ∈ q.module.globals, r ∈ p.module.globals ∨ q.Holds r ∧ (q.inst r).Complete) : q.Complete := by
  intro r member
  rcases new r member with old | complete
  · obtain ⟨held, complete⟩ := h r old
    obtain ⟨more, same⟩ := grows.extended held
    exact ⟨grows.holds held, same ▸ complete.extended more⟩
  · exact complete

theorem Complete.appended (h : p.Complete) {place : Section} {r : InstRef} (isOpen : place.isOpen = true)
    (held : p.Holds r) (complete : (p.inst r).Complete) : (p.appended place r).Complete := by
  refine h.of_grows (p.grows_appended r isOpen) fun s member => ?_
  rcases List.mem_cons.mp ((globals_appended_perm p.module place r).mem_iff.mp member) with rfl | old
  · exact .inr ⟨held, complete⟩
  · exact .inl old

theorem Complete.nextBound (h : p.Complete) : p.nextBound.Complete := h

theorem Complete.made (h : p.Complete) (i : Instruction) : (p.made i).Complete :=
  h.of_grows (p.grows_made i) fun _ => .inl

theorem Complete.declared (h : p.Complete) {i : Instruction} (complete : i.Complete) : (p.declared i).Complete := by
  refine (h.nextBound.made i).appended rfl (p.nextBound.holds_made i) ?_
  change ((p.declared i).inst ⟨p.instructions.size⟩).Complete
  rwa [p.inst_declared]

theorem Complete.annotations (h : p.Complete) : ∃ a, Annotations.ofProgram p = .ok a := by
  refine except_foldlM_isOk _ fun r member a => ?_
  unfold Annotations.analyze
  split
  next annotates =>
    have read : (p.inst r).opcode = .decorate ∨ (p.inst r).opcode = .memberDecorate := by
      simpa [Instruction.annotates] using annotates
    obtain ⟨target, found⟩ := (h.of_list .annotations member).value (by rcases read with h | h <;> simp [h])
    exact ⟨_, except_bind_ok_iff.mpr ⟨target, found, rfl⟩⟩
  · exact ⟨a, rfl⟩

theorem Complete.features (h : p.Complete) : ∃ f, Features.ofProgram p = .ok f := by
  have named (place : Section) (opcode : Opcode) (read : opcode = .capability ∨ opcode = .extension) :
      ∃ entries, Features.named p opcode (p.module.list place) = .ok entries := by
    obtain ⟨entries, found⟩ : ∃ entries,
        ((p.module.list place).filter fun r => (p.inst r).opcode = opcode).mapM (fun r => (p.inst r).value 0) =
          .ok entries := by
      refine except_mapM_isOk fun r member => ?_
      obtain ⟨listed, same⟩ := List.mem_filter.mp member
      obtain same : (p.inst r).opcode = opcode := by simpa using same
      exact (h.of_list place listed).value (by rcases read with rfl | rfl <;> simp [same])
    exact ⟨_, except_bind_ok_iff.mpr ⟨entries, found, rfl⟩⟩
  obtain ⟨capabilities, first⟩ := named .capabilities .capability (.inl rfl)
  obtain ⟨extensions, second⟩ := named .extensions .extension (.inr rfl)
  exact ⟨_, except_bind_ok_iff.mpr ⟨_, first, except_bind_ok_iff.mpr ⟨_, second, rfl⟩⟩⟩

theorem Complete.anyNames (h : p.Complete) (target : Value) : ∃ named, Workspace.anyNames p target p.module.debugs2 =
    .ok named := by
  have all : ∀ r ∈ p.module.debugs2, (p.inst r).Complete := fun r member => h.of_list .debugs2 member
  generalize p.module.debugs2 = refs at all
  induction refs with
  | nil => exact ⟨_, rfl⟩
  | cons r rest ih =>
    rw [List.forall_mem_cons] at all
    unfold Workspace.anyNames
    split
    next name =>
      obtain ⟨v, found⟩ := all.1.value (by simp [name])
      rw [found]
      change ∃ named, (if v = target then _ else _) = Except.ok named
      split
      · exact ⟨true, rfl⟩
      · exact ih all.2
    · exact ih all.2

/-! ### New declarations -/

/-- New declarations have been made, and the types among them are as they are allowed to be, for good. -/
def Introduces (p q : Program) (allowed : Instruction → Prop) : Prop :=
  ∀ r ∈ q.module.typesValues, r ∉ p.module.typesValues → q.Holds r ∧
    ((q.inst r).opcode.declaresType = true → r ∉ q.module.entryPoints ∧ allowed (q.inst r))

namespace Introduces

variable {o : Program} {allowed more : Instruction → Prop}

theorem of_same (same : q.module.typesValues = p.module.typesValues) : p.Introduces q allowed :=
  fun _ member new => absurd (same ▸ member) new

theorem mono (h : p.Introduces q allowed) (imp : ∀ i, allowed i → more i) : p.Introduces q more := by
  intro r member new
  obtain ⟨held, types⟩ := h r member new
  exact ⟨held, fun type => (types type).imp_right (imp _)⟩

theorem trans (first : p.Introduces q allowed) (grows : q.Grows o) (second : q.Introduces o allowed) :
    p.Introduces o allowed := by
  intro r member new
  by_cases known : r ∈ q.module.typesValues
  -- It was made in the first part, and a type among such declarations is left as it is.
  · obtain ⟨held, types⟩ := first r known new
    refine ⟨grows.holds held, fun type => ?_⟩
    obtain ⟨operands, same⟩ := grows.extended held
    obtain ⟨plain, fine⟩ := types (by rwa [same] at type)
    rw [grows.module.entryPoints, grows.inst held plain]
    exact ⟨plain, fine⟩
  · exact second r member known

theorem appended {place : Section} (other : place ≠ .typesValues) (r : InstRef) :
    p.Introduces (p.appended place r) allowed :=
  of_same (by cases place <;> first | rfl | exact absurd rfl other)

theorem declared {i : Instruction}
    (type : i.opcode.declaresType = true → (∀ r ∈ p.module.entryPoints, p.Holds r) ∧ allowed i) :
    p.Introduces (p.declared i) allowed := by
  intro r member new
  obtain rfl := (mem_typesValues_appended _ member).resolve_left new
  refine ⟨p.nextBound.holds_made i, ?_⟩
  rw [p.inst_declared]
  exact fun declares => ⟨fun entry => Nat.lt_irrefl _ ((type declares).1 _ entry), (type declares).2⟩

end Introduces

end Program

namespace Workspace

open Change

/-- The program grows outside of its blocks and stays complete, and the tables are left alone. -/
structure Retains (shaped : Prop) (w w' : Workspace) : Prop where
  program : w.program.Extends w'.program
  types : w'.facts.types = w.facts.types
  constants : w'.facts.constants = w.facts.constants
  complete : shaped → w.program.Complete → w'.program.Complete

structure Edited (shaped : Prop) (w w' : Workspace) : Prop extends Retains shaped w w' where
  introduces : w.program.Introduces w'.program fun _ => False

variable {shaped : Prop} {w w' w'' : Workspace} {α β : Type}

theorem Retains.trans (first : Retains shaped w w') (second : Retains shaped w' w'') : Retains shaped w w'' where
  program := first.program.trans second.program
  types := second.types.trans first.types
  constants := second.constants.trans first.constants
  complete assumed complete := second.complete assumed (first.complete assumed complete)

theorem Retains.declared (free : w.program.module.idBound < maxIdBound) {i : Instruction} (complete : i.Complete)
    (uses : Option Uses) : Retains shaped w { program := w.program.declared i, facts := { w.facts with uses } } :=
  ⟨⟨Program.grows_declared free i, rfl⟩, rfl, rfl, fun _ all => all.declared complete⟩

namespace Edited

theorem refl (w : Workspace) : Edited shaped w w :=
  ⟨⟨.refl _, rfl, rfl, fun _ complete => complete⟩, .of_same rfl⟩

theorem trans (first : Edited shaped w w') (second : Edited shaped w' w'') : Edited shaped w w'' :=
  ⟨first.toRetains.trans second.toRetains, first.introduces.trans second.program.toGrows second.introduces⟩

/-- Only facts that are no tables change. -/
theorem of_facts (program : w'.program = w.program) (types : w'.facts.types = w.facts.types)
    (constants : w'.facts.constants = w.facts.constants) : Edited shaped w w' := by
  refine ⟨⟨?_, types, constants, fun _ complete => ?_⟩, .of_same ?_⟩
  · rw [program]
    exact .refl _
  · rwa [program]
  · rw [program]

theorem nextBound (free : w.program.module.idBound < maxIdBound) :
    Edited shaped w { w with program := w.program.nextBound } :=
  ⟨⟨⟨Program.grows_nextBound free, rfl⟩, rfl, rfl, fun _ complete => complete.nextBound⟩, .of_same rfl⟩

theorem made (i : Instruction) : Edited shaped w { w with program := w.program.made i } :=
  ⟨⟨⟨w.program.grows_made i, rfl⟩, rfl, rfl, fun _ complete => complete.made i⟩, .of_same rfl⟩

theorem appended {place : Section} {r : InstRef} (isOpen : place.isOpen = true) (other : place ≠ .typesValues)
    (held : w.program.Holds r) (complete : (w.program.inst r).Complete) :
    Edited shaped w { w with program := w.program.appended place r } :=
  ⟨⟨⟨w.program.grows_appended r isOpen, rfl⟩, rfl, rfl, fun _ all => all.appended isOpen held complete⟩,
    .appended other r⟩

theorem declared (free : w.program.module.idBound < maxIdBound) {i : Instruction} (complete : i.Complete)
    (noType : i.opcode.declaresType = false) (uses : Option Uses) :
    Edited shaped w { program := w.program.declared i, facts := { w.facts with uses } } :=
  ⟨.declared free complete uses, .declared fun type => absurd (noType.symm.trans type) Bool.false_ne_true⟩

theorem withOperand {r : InstRef} (operand : Operand) (entry : r ∈ w.program.module.entryPoints) :
    Edited shaped w { w with program := w.program.withOperand r operand } := by
  have grows := Program.grows_withOperand operand entry
  exact ⟨⟨⟨grows, rfl⟩, rfl, rfl, fun _ all => all.of_grows grows fun _ => .inl⟩, .of_same rfl⟩

end Edited

def Edits (shaped : Prop) (change : Action α) (w : Workspace) : Prop :=
  (shaped → w.program.Complete) → Safe shaped change w fun _ => Edited shaped w

namespace Edits

theorem pure (a : α) : Edits shaped (Pure.pure a) w :=
  fun _ => After.pure (.refl w)

theorem bind {change : Action α} {next : α → Action β} (first : Edits shaped change w)
    (rest : ∀ a w', Edited shaped w w' → Edits shaped (next a) w') : Edits shaped (change >>= next) w := by
  intro complete
  refine Safe.bind (first complete) fun a w' edited => ?_
  have complete' (assumed : shaped) := edited.complete assumed (complete assumed)
  exact (rest a w' edited complete').mono fun _ _ later => edited.trans later

theorem bind_get {next : Workspace → Action β} (h : Edits shaped (next w) w) : Edits shaped (get >>= next) w := h

theorem discard {change : Action α} (h : Edits shaped change w) : Edits shaped (discard change) w :=
  h.bind fun _ _ _ => pure ()

theorem modify {f : Workspace → Workspace} (edited : Edited shaped w (f w)) : Edits shaped (modify f) w :=
  fun _ => After.modify edited

theorem check {result : Except Error α} (kind : OnlyFaults result)
    (passes : shaped → w.program.Complete → ∃ a, result = .ok a) : Edits shaped (liftM result) w := by
  intro complete
  refine (safe_check (fun e failed => (kind e failed).not_formal)
    fun assumed => passes assumed (complete assumed)).mono fun a t held => ?_
  rw [held.2]
  exact .refl w

theorem forM {f : α → Action Unit} {entries : List α}
    (each : ∀ a ∈ entries, ∀ w', Edited shaped w w' → Edits shaped (f a) w') : Edits shaped (entries.forM f) w := by
  induction entries generalizing w with
  | nil => exact pure ()
  | cons a rest ih =>
    rw [List.forall_mem_cons] at each
    refine (each.1 w (.refl w)).bind fun _ w' edited => ?_
    exact ih fun b member w'' later => each.2 b member w'' (edited.trans later)

/-- The new instruction is known to what follows. -/
theorem newInst {i : Instruction} {next : InstRef → Action β}
    (rest : ∀ r w', Edited shaped w w' → w'.program.Holds r → w'.program.inst r = i → Edits shaped (next r) w') :
    Edits shaped ((liftM (Program.newInst i) : Action InstRef) >>= next) w := by
  intro complete
  have edited : Edited shaped w { w with program := w.program.made i } := .made i
  have complete' (assumed : shaped) := edited.complete assumed (complete assumed)
  have later := rest _ _ edited (w.program.holds_made i) (w.program.inst_made i) complete'
  exact After.bind (after_newInst (later.mono fun _ _ later => edited.trans later))

theorem append {place : Section} {r : InstRef} (isOpen : place.isOpen = true) (other : place ≠ .typesValues)
    (held : w.program.Holds r) (some : (w.program.inst r).operands ≠ []) :
    Edits shaped (liftM (Program.append place r) : Action Unit) w :=
  fun _ => After.within (Program.after_append (.appended isOpen other held (Instruction.complete_of_operands some)))

end Edits

/-! ### Facts -/

theorem edits_mapUses (change : Program → Uses → Uses) : Edits shaped (mapUses change) w :=
  .modify (.of_facts rfl rfl rfl)

theorem edits_mapFeatures (change : Features → Features) : Edits shaped (mapFeatures change) w :=
  .modify (.of_facts rfl rfl rfl)

theorem edits_needUses : Edits shaped needUses w := by
  unfold needUses
  apply Edits.bind_get
  split
  · exact .pure _
  · apply Edits.bind_get
    exact (Edits.modify (.of_facts rfl rfl rfl)).bind fun _ _ _ => .pure _

theorem edits_needAnnotations : Edits shaped needAnnotations w := by
  unfold needAnnotations
  apply Edits.bind_get
  split
  · exact .pure _
  · apply Edits.bind_get
    refine (Edits.check (Annotations.ofProgram_onlyFaults _) fun _ complete => complete.annotations).bind
      fun _ _ _ => ?_
    exact (Edits.modify (.of_facts rfl rfl rfl)).bind fun _ _ _ => .pure _

theorem edits_needFeatures : Edits shaped needFeatures w := by
  unfold needFeatures
  apply Edits.bind_get
  split
  · exact .pure _
  · apply Edits.bind_get
    refine (Edits.check (Features.ofProgram_onlyFaults _) fun _ complete => complete.features).bind fun _ _ _ => ?_
    exact (Edits.modify (.of_facts rfl rfl rfl)).bind fun _ _ _ => .pure _

/-! ### Names and annotations -/

theorem edits_addName {r : InstRef} (held : w.program.Holds r) (some : (w.program.inst r).operands ≠ []) :
    Edits shaped (addName r) w :=
  (Edits.append rfl (by decide) held some).bind fun _ _ _ => edits_mapUses _

/-- Operands of an instruction are never taken away. -/
theorem Edited.operands (h : Edited shaped w w') {r : InstRef} (held : w.program.Holds r)
    (some : (w.program.inst r).operands ≠ []) : (w'.program.inst r).operands ≠ [] := by
  obtain ⟨more, same⟩ := h.program.extended held
  rw [same]
  exact List.append_ne_nil_of_left_ne_nil some more

theorem edits_attach {r : InstRef} (held : w.program.Holds r) (some : (w.program.inst r).operands ≠ []) :
    Edits shaped ( addAnnotation r) w := by
  unfold addAnnotation
  refine (Edits.append rfl (by decide) held some).bind fun _ w₁ first => ?_
  refine (edits_mapUses _).bind fun _ w₂ second => ?_
  apply Edits.bind_get
  split
  · exact .pure ()
  next a _ =>
    refine (Edits.check (a.analyze_onlyFaults w₂.program r) fun _ _ => ?_).bind fun _ _ _ =>
      .modify (.of_facts rfl rfl rfl)
    -- The first operand was there when the annotation was listed, and it is not taken away.
    obtain ⟨v, read⟩ := Instruction.value_isOk
      (List.length_pos_iff.mpr ((first.trans second : Edited shaped w w₂).operands held some))
    unfold Annotations.analyze
    split
    · exact ⟨_, except_bind_ok_iff.mpr ⟨v, read, rfl⟩⟩
    · exact ⟨a, rfl⟩

theorem edits_annotate (a : Annotations) (target : Value) (opcode : Opcode) (operands : List Operand) :
    Edits shaped (annotate a target opcode operands) w := by
  unfold annotate
  apply Edits.bind_get
  split
  · exact .pure _
  · refine Edits.newInst fun r w' _ held made => ?_
    exact (edits_attach held (made ▸ List.cons_ne_nil _ _)).bind fun _ _ _ => .pure r

theorem edits_decorate (target : Value) {decoration : Decoration} (numbered : decoration.Numbered) :
    Edits shaped (decorate target decoration) w := by
  unfold decorate
  refine edits_needAnnotations.bind fun a _ _ => ?_
  cases decoration with
  | nil => cases numbered
  | cons d values =>
    exact (Edits.check d.number_onlyFaults fun _ _ => numbered).bind fun _ _ _ => edits_annotate a _ _ _

theorem edits_decorateMember (target : Value) {member : Value} {decoration : Decoration}
    (numbered : decoration.Numbered) : Edits shaped (decorateMember target (member :: decoration)) w := by
  unfold decorateMember
  refine edits_needAnnotations.bind fun a _ _ => ?_
  cases decoration with
  | nil => cases numbered
  | cons d values =>
    exact (Edits.check d.number_onlyFaults fun _ _ => numbered).bind fun _ _ _ => edits_annotate a _ _ _

/-! ### What belongs to a buffer -/

theorem edits_addBufferNames (bufferType buffer : Value) : Edits shaped (addBufferNames bufferType buffer) w := by
  have named {w : Workspace} (opcode : Opcode) (target : Value) (more : List Operand) :
      Edits shaped (do addName (← Program.newInst { opcode, operands := .ofId target :: more })) w :=
    Edits.newInst fun r _ _ held made => edits_addName held (made ▸ List.cons_ne_nil _ _)
  unfold addBufferNames
  apply Edits.bind_get
  refine (Edits.check (anyNames_onlyFaults _ _ _) fun _ complete => complete.anyNames bufferType).bind
    fun known w₁ _ => ?_
  have last {w : Workspace} := named (w := w) .name buffer [.string (.str CounterBuffer.variableName)]
  split
  · exact last
  · exact (named .name bufferType _).bind fun _ _ _ => (named .memberName bufferType _).bind fun _ _ _ => last

theorem edits_declare {place : Section} {i : Instruction} (isOpen : place.isOpen = true)
    (other : place ≠ .typesValues) (some : i.operands ≠ []) :
    Edits shaped (liftM (Program.declare place i) : Action InstRef) w := by
  intro _
  refine After.within (Program.after_declare
    (Edited.trans (.made i) (.appended isOpen other (w.program.holds_made i) ?_)))
  exact Instruction.complete_of_operands (by rwa [w.program.inst_made i])

theorem edits_provideExtension : Edits shaped provideExtension w := by
  unfold provideExtension
  refine edits_needFeatures.bind fun f w₁ _ => Edits.bind_get ?_
  split
  · exact .pure ()
  · unfold addExtension
    exact (edits_declare rfl (by decide) (List.cons_ne_nil _ _)).discard.bind fun _ _ _ => edits_mapFeatures _

theorem edits_provideCapability (capability : Int) : Edits shaped (provideCapability capability) w := by
  unfold provideCapability
  refine edits_needFeatures.bind fun f w₁ _ => ?_
  split
  · exact .pure ()
  · unfold addCapability
    refine (Edits.check (Value.number_onlyFaults _) fun _ _ => ⟨_, rfl⟩).bind fun _ _ _ => ?_
    exact (edits_declare rfl (by decide) (List.cons_ne_nil _ _)).discard.bind fun _ _ _ => edits_mapFeatures _

theorem edits_provideWideCounters : Edits shaped provideWideCounters w :=
  (edits_provideCapability _).bind fun _ _ _ => edits_provideCapability _

theorem edits_extendInterfaces (id : Id) : Edits shaped (extendInterfaces id) w := by
  unfold extendInterfaces
  apply Edits.bind_get
  dsimp only
  split
  · refine Edits.forM fun r entry w' edited => ?_
    have entry' : r ∈ w'.program.module.entryPoints := edited.program.module.entryPoints ▸ entry
    have added : Edits shaped (liftM (Program.addOperand r (.ofId (.int id))) : Action Unit) w' :=
      fun _ => After.within (Program.after_addOperand (.withOperand _ entry'))
    exact added.bind fun _ _ _ => edits_mapUses _
  · exact .pure ()

end Workspace

end BlockTally
