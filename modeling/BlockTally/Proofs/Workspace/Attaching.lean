import BlockTally.Proofs.Program.Growth
import BlockTally.Proofs.Workspace.Reading
import BlockTally.Workspace.Edit
import Mathlib.Logic.Function.Basic

/-! Decorations that are attached to a new id.

They are listed as annotations in the order in which they are attached, so they are read in this order again.
-/

set_option autoImplicit false

namespace BlockTally

namespace Program

def GlobalsHeld (p : Program) : Prop :=
  ∀ r ∈ p.module.typesValues ++ p.module.annotations, p.Holds r

variable {p : Program}

/-- A new instruction at the end of the annotations. -/
theorem GlobalsHeld.noted (h : p.GlobalsHeld) (i : Instruction) :
    p.Adds ((p.made i).appended .annotations ⟨p.instructions.size⟩) [] [⟨p.instructions.size⟩] where
  typesValues := (List.append_nil _).symm
  annotations := rfl
  global _ member := inst_made_of_lt i (h _ (List.mem_append_left _ member))
  note _ member := inst_made_of_lt i (h _ (List.mem_append_right _ member))

theorem GlobalsHeld.of_adds {q : Program} {globals notes : List InstRef} (h : p.GlobalsHeld)
    (adds : p.Adds q globals notes) (longer : p.instructions.size ≤ q.instructions.size)
    (new : ∀ r ∈ globals ++ notes, q.Holds r) : q.GlobalsHeld := by
  intro r member
  simp only [adds.typesValues, adds.annotations, List.mem_append] at member
  have old (listed : r ∈ p.module.typesValues ++ p.module.annotations) : q.Holds r :=
    Nat.lt_of_lt_of_le (h r listed) longer
  rcases member with (member | member) | (member | member)
  · exact old (List.mem_append_left _ member)
  · exact new r (List.mem_append_left _ member)
  · exact old (List.mem_append_right _ member)
  · exact new r (List.mem_append_right _ member)

end Program

namespace Workspace

/-- Starting from another workspace, annotations of an id were listed, and now these are the values it has. -/
structure Attached (start : Workspace) (id : Id) (given : Opcode → List Decoration) (w : Workspace) : Prop where
  adds : ∃ notes, start.program.Adds w.program [] notes ∧ ∀ n ∈ notes, (w.program.inst n).target? = some (.int id)
  held : w.program.GlobalsHeld
  bound : w.program.module.idBound = start.program.module.idBound
  annotated : ∃ a, w.facts.annotations = some a ∧ Annotations.ofProgram w.program = .ok a ∧
    ∀ opcode, Annotations.valuesOn w.program a (.int id) opcode = given opcode
  types : w.facts.types = start.facts.types
  constants : w.facts.constants = start.facts.constants

/-- What holds after an action, unless it fails. -/
abbrev Then {α : Type} (change : Action α) (w : Workspace) (post : α → Workspace → Prop) : Prop :=
  Change.After change w post fun _ _ => True

theorem Then.bind {α β : Type} {change : Action α} {next : α → Action β} {w : Workspace}
    {post : α → Workspace → Prop} {last : β → Workspace → Prop} (h : Then change w post)
    (rest : ∀ a w', post a w' → Then (next a) w' last) : Then (change >>= next) w last :=
  Change.After.andThen h rest

theorem Then.check {α β : Type} {result : Except Error α} {next : α → Action β} {w : Workspace}
    {last : β → Workspace → Prop} (rest : ∀ a, result = .ok a → Then (next a) w last) :
    Then ((liftM result : Action α) >>= next) w last :=
  Change.After.bind (Change.After.check rest fun _ _ => True.intro)

theorem Then.discard {α : Type} {change : Action α} {w : Workspace} {post : Workspace → Prop}
    (h : Then change w fun _ => post) : Then (discard change) w fun _ => post :=
  h.bind fun _ _ held => .pure held

theorem exists_ok {α : Type} {change : Action α} {w : Workspace} {post : α → Workspace → Prop}
    (h : Change.After change w post fun _ _ => False) : ∃ a w', change w = .ok a w' ∧ post a w' := by
  unfold Change.After at h
  split at h
  next a w' done => exact ⟨a, w', done, h⟩
  next => exact h.elim

/-- A table that was found before is used again. -/
theorem then_needTypes_known {w : Workspace} {t : TypeTable} (found : w.facts.types = some t) :
    Then needTypes w fun t' w' => t' = t ∧ w' = w := by
  unfold needTypes
  apply Change.After.bind_get
  rw [found]
  exact .pure ⟨rfl, rfl⟩

theorem then_needConstants_known {w : Workspace} {c : ConstantTable} (found : w.facts.constants = some c) :
    Then needConstants w fun c' w' => c' = c ∧ w' = w := by
  unfold needConstants
  apply Change.After.bind_get
  rw [found]
  exact .pure ⟨rfl, rfl⟩

variable {start w : Workspace} {id : Id} {given : Opcode → List Decoration} {a : Annotations}

/-- An annotation that is not there yet is listed. -/
theorem after_annotate {target : Value} {opcode : Opcode} {operands : List Operand}
    (found : w.facts.annotations = some a)
    (absent : a.find? w.program target opcode (operands.map Operand.value) = none) :
    Then (annotate a target opcode operands) w fun _ w' =>
      w'.program = (w.program.made { opcode, operands := .ofId target :: operands }).appended .annotations
        ⟨w.program.instructions.size⟩ ∧
      (∃ b, w'.facts.annotations = some b ∧ a.analyze w'.program ⟨w.program.instructions.size⟩ = .ok b) ∧
      w'.facts.types = w.facts.types ∧ w'.facts.constants = w.facts.constants := by
  unfold annotate
  apply Change.After.bind_get
  rw [absent]
  refine .bind (.within (Program.after_newInst (.bind ?_)))
  refine .bind (.within (Program.after_append (.bind (.modify (.bind_get ?_)))))
  dsimp only
  rw [found]
  exact .bind (.check (fun b analyzed => .modify (.pure ⟨rfl, ⟨b, rfl, analyzed⟩, rfl, rfl⟩)) fun _ _ => True.intro)

/-- An annotation with new values comes last. -/
theorem Attached.annotate {opcode : Opcode} {operands : List Operand} {values : Decoration}
    (h : Attached start id given w) (found : w.facts.annotations = some a)
    (annotates : opcode = .decorate ∨ opcode = .memberDecorate) (same : operands.map Operand.value = values)
    (new : values ∉ given opcode) : Then (annotate a (.int id) opcode operands) w fun _ =>
      Attached start id (Function.update given opcode (given opcode ++ [values])) := by
  obtain ⟨a', found', read, onId⟩ := h.annotated
  obtain rfl := Option.some.inj (found.symm.trans found')
  rw [← onId opcode, ← same] at new
  refine .mono (after_annotate found (Annotations.find?_of_new new)) (fun _ w' held => ?_) fun _ _ _ => True.intro
  obtain ⟨program, ⟨b, found', analyzed⟩, types, constants⟩ := held
  let r : InstRef := ⟨w.program.instructions.size⟩
  let i : Instruction := { opcode, operands := .ofId (.int id) :: operands }
  have inst : w'.program.inst r = i := by
    rw [program]
    exact Program.inst_made _ i
  have target : (w'.program.inst r).target? = some (.int id) := by
    rw [inst]
    rcases annotates with rfl | rfl <;> rfl
  -- The annotation is new and comes last, in the module and in the table.
  have more : w.program.Adds w'.program [] [r] := program ▸ h.held.noted i
  have read' : Annotations.ofProgram w'.program = .ok b := by
    rw [more.ofProgram, read]
    exact except_bind_ok_iff.mpr ⟨a, rfl, by rw [List.foldlM_cons, analyzed]; rfl⟩
  have size : w'.program.instructions.size = w.program.instructions.size + 1 := by
    rw [program]
    exact Program.size_made ..
  constructor
  case adds =>
    obtain ⟨notes, adds, targets⟩ := h.adds
    refine ⟨notes ++ [r], adds.trans more, fun n member => ?_⟩
    rcases List.mem_append.mp member with old | last
    · rw [more.note n (adds.annotations ▸ List.mem_append_right _ old)]
      exact targets n old
    · obtain rfl := List.mem_singleton.mp last
      exact target
  case held =>
    refine h.held.of_adds more (by omega) fun n member => ?_
    obtain rfl := List.mem_singleton.mp member
    exact Nat.lt_of_lt_of_eq (Nat.lt_succ_self _) size.symm
  case bound =>
    rw [program, ← h.bound]
    rfl
  case annotated =>
    refine ⟨b, found', read', fun other => ?_⟩
    have values : i.valuesFrom 1 = operands.map Operand.value := rfl
    rw [more.valuesOn_noted read read' target, inst, onId, values, same, Function.update_apply]
    by_cases here : other = opcode
    · rw [if_pos here.symm, if_pos here, here]
    · rw [if_neg (Ne.symm here), if_neg here, List.append_nil]
  case types => exact types.trans h.types
  case constants => exact constants.trans h.constants

theorem Attached.needAnnotations (h : Attached start id given w) :
    Then needAnnotations w fun a w' => w' = w ∧ w.facts.annotations = some a := by
  obtain ⟨a, found, -⟩ := h.annotated
  unfold Workspace.needAnnotations
  apply Change.After.bind_get
  rw [found]
  exact .pure ⟨rfl, rfl⟩

def Integral (d : Decoration) : Prop :=
  ∀ v ∈ d, ∃ number : Int, v = .int number

theorem Attached.decorate {d : Decoration} (h : Attached start id given w) (integers : Integral d)
    (new : d ∉ given .decorate) : Then (decorate (.int id) d) w fun _ =>
      Attached start id (Function.update given .decorate (given .decorate ++ [d])) := by
  unfold Workspace.decorate
  refine h.needAnnotations.bind fun a w' held => ?_
  obtain ⟨rfl, found⟩ := held
  cases d with
  | nil => exact .throw True.intro
  | cons v values =>
    obtain ⟨number, rfl⟩ := integers v (List.mem_cons_self ..)
    refine Then.check fun _ read => ?_
    obtain rfl := Except.ok.inj read
    refine h.annotate found (.inl rfl) ?_ new
    rw [List.map_cons, List.map_map]
    exact congrArg _ (List.map_id values)

theorem Attached.decorateMember {d : Decoration} (h : Attached start id given w) (integers : Integral d)
    (new : d ∉ given .memberDecorate) : Then (decorateMember (.int id) d) w fun _ =>
      Attached start id (Function.update given .memberDecorate (given .memberDecorate ++ [d])) := by
  unfold Workspace.decorateMember
  refine h.needAnnotations.bind fun a w' held => ?_
  obtain ⟨rfl, found⟩ := held
  match d, integers, new with
  | [], _, _ => exact .throw True.intro
  | [_], _, _ => exact .throw True.intro
  | member :: v :: values, integers, new =>
    obtain ⟨number, rfl⟩ := integers v (List.mem_cons_of_mem _ (List.mem_cons_self ..))
    refine Then.check fun _ read => ?_
    obtain rfl := Except.ok.inj read
    refine h.annotate found (.inr rfl) ?_ new
    rw [List.map_cons, List.map_cons, List.map_map]
    exact congrArg _ (congrArg _ (List.map_id values))

/-- Annotations that are attached one after the other are read in this order. -/
theorem Attached.forM {opcode : Opcode} {attach : Decoration → Action InstRef} {ds : List Decoration}
    (each : ∀ d ∈ ds, ∀ given w, Attached start id given w → d ∉ given opcode →
      Then (attach d) w fun _ => Attached start id (Function.update given opcode (given opcode ++ [d])))
    (distinct : (given opcode ++ ds).Nodup) (h : Attached start id given w) :
    Then (ds.forM fun d => discard <| attach d) w fun _ =>
      Attached start id (Function.update given opcode (given opcode ++ ds)) := by
  induction ds generalizing given w with
  | nil =>
    rw [List.append_nil, Function.update_eq_self]
    exact .pure h
  | cons d rest ih =>
    rw [List.forall_mem_cons] at each
    have new : d ∉ given opcode := fun old => (List.nodup_append.mp distinct).2.2 d old d (List.mem_cons_self ..) rfl
    refine (each.1 given w h new).discard.bind fun _ w' held => ?_
    have later := ih each.2 (by simpa using distinct) held
    simpa using later

end Workspace

end BlockTally
