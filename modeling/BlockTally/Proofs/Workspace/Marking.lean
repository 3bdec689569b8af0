import BlockTally.Proofs.Workspace.Attaching
import Mathlib.Data.List.Induction

/-! Requests for decorations, one after the other.

An annotation has a key: its opcode and its values, of which the first one is the target. A request is answered by an
annotation with the key that is asked for, which is listed if there is none yet. So many requests leave the old
annotations with one new one for each key that was missing, in whatever order and however often they are made.
-/

set_option autoImplicit false

namespace BlockTally

namespace Value

theorem number_of_some {v : Value} {number : Int} (numeral : v.number? = some number) : v.number = .ok number := by
  rw [Value.number, numeral]
  rfl

theorem number_of_none {v : Value} (unnumbered : v.number? = none) : v.number = .error (.fault .notANumber) := by
  rw [Value.number, unnumbered]
  rfl

end Value

namespace Instruction

def key (i : Instruction) : Opcode × List Value :=
  (i.opcode, i.valuesFrom 0)

theorem key_eq_iff {i : Instruction} {opcode : Opcode} (annotates : opcode = .decorate ∨ opcode = .memberDecorate)
    {target : Value} {values : List Value} :
    i.key = (opcode, target :: values) ↔ i.target? = some target ∧ i.opcode = opcode ∧ i.valuesFrom 1 = values := by
  obtain ⟨opcode', typeId, resultId, operands⟩ := i
  constructor
  · intro same
    obtain ⟨rfl, listed⟩ := Prod.mk.inj same
    have kind : (Instruction.mk opcode' typeId resultId operands).annotates = true := by
      rcases annotates with rfl | rfl <;> rfl
    cases operands with
    | nil => cases listed
    | cons first rest =>
      obtain ⟨rfl, rfl⟩ := List.cons.inj listed
      exact ⟨if_pos kind, rfl, rfl⟩
  · rintro ⟨found, rfl, rfl⟩
    unfold target? at found
    split at found
    · cases operands with
      | nil => cases found
      | cons first rest =>
        obtain rfl := Option.some.inj found
        rfl
    · cases found

end Instruction

namespace Program

def noteKeys (p : Program) : List (Opcode × List Value) :=
  p.module.annotations.map fun r => (p.inst r).key

end Program

namespace Workspace

/-- A request for a decoration of an id, or of a member of a structure. -/
inductive Mark where
  | own (target decoration : Value) (values : List Value)
  | member (target place decoration : Value) (values : List Value)
  deriving DecidableEq, Repr

namespace Mark

def run : Mark → Action InstRef
  | own target decoration values => decorate target (decoration :: values)
  | member target place decoration values => decorateMember target (place :: decoration :: values)

/-- The key of the annotation that is asked for; there is none if the decoration is not a number. -/
def key? : Mark → Option (Opcode × List Value)
  | own target decoration values => decoration.number?.map fun number => (.decorate, target :: .int number :: values)
  | member target place decoration values =>
      decoration.number?.map fun number => (.memberDecorate, target :: place :: .int number :: values)

theorem run_of_no_key {m : Mark} (unnumbered : m.key? = none) :
    m.run = needAnnotations >>= fun _ => throw (.fault .notANumber) := by
  cases m with
  | own target decoration values =>
    simp only [run, decorate, Value.number_of_none (Option.map_eq_none_iff.mp unnumbered)]
    rfl
  | member target place decoration values =>
    simp only [run, decorateMember, Value.number_of_none (Option.map_eq_none_iff.mp unnumbered)]
    rfl

/-- A request with a key looks for it among the annotations of the target. -/
theorem run_of_key {m : Mark} {k : Opcode × List Value} (asked : m.key? = some k) :
    ∃ target operands, k = (k.1, target :: operands.map Operand.value) ∧ (k.1 = .decorate ∨ k.1 = .memberDecorate) ∧
      m.run = needAnnotations >>= fun a => annotate a target k.1 operands := by
  cases m with
  | own target decoration values =>
    obtain ⟨number, numeral, rfl⟩ := Option.map_eq_some_iff.mp asked
    refine ⟨target, ⟨.decoration, .int number⟩ :: values.map .literal, ?_, .inl rfl, ?_⟩
    · rw [List.map_cons, List.map_map]
      exact congrArg (fun values => (_, _ :: _ :: values)) (List.map_id values).symm
    · simp only [run, decorate, Value.number_of_some numeral]
      rfl
  | member target place decoration values =>
    obtain ⟨number, numeral, rfl⟩ := Option.map_eq_some_iff.mp asked
    refine ⟨target, .literal place :: ⟨.decoration, .int number⟩ :: values.map .literal, ?_, .inr rfl, ?_⟩
    · rw [List.map_cons, List.map_cons, List.map_map]
      exact congrArg (fun values => (_, _ :: _ :: _ :: values)) (List.map_id values).symm
    · simp only [run, decorateMember, Value.number_of_some numeral]
      rfl

end Mark

def Tabled (w : Workspace) (a : Annotations) : Prop :=
  w.facts.annotations = some a ∧ ∀ target, a.on target = w.program.notesOn target

structure Mirrored (w : Workspace) : Prop where
  held : ∀ r ∈ w.program.module.annotations, w.program.Holds r
  table : (∃ a, w.Tabled a) ∨ w.facts.annotations = none

/-- There is a table of the annotations as they are, or none yet and the annotations can be read. -/
structure Markable (w : Workspace) : Prop where
  held : ∀ r ∈ w.program.module.annotations, w.program.Holds r
  table : (∃ a, w.Tabled a) ∨ w.facts.annotations = none ∧ ∃ a, Annotations.ofProgram w.program = .ok a

variable {w w' : Workspace} {a : Annotations} {m : Mark} {k : Opcode × List Value}

theorem needAnnotations_of_tabled (h : w.Tabled a) : needAnnotations w = .ok a w := by
  rw [needAnnotations, Change.get_bind, h.1]
  rfl

theorem Markable.needAnnotations (h : w.Markable) : ∃ a w', needAnnotations w = .ok a w' ∧ w'.program = w.program ∧
    w'.Tabled a ∧ ∀ b, w.Tabled b → w' = w := by
  rcases h.table with ⟨a, tabled⟩ | ⟨unread, a, read⟩
  · exact ⟨a, w, needAnnotations_of_tabled tabled, rfl, tabled, fun _ _ => rfl⟩
  · refine ⟨a, { w with facts := { w.facts with annotations := some a } }, ?_, rfl,
      ⟨rfl, Annotations.on_ofProgram read⟩, fun b tabled => absurd (unread.symm.trans tabled.1) nofun⟩
    rw [Workspace.needAnnotations, Change.get_bind, unread]
    exact Change.check_bind read

def Unreadable (w : Workspace) (e : Error) : Prop :=
  w.facts.annotations = none ∧ Annotations.ofProgram w.program = .error e

theorem Mirrored.markable_or_unreadable (h : w.Mirrored) : w.Markable ∨ ∃ e, w.Unreadable e := by
  rcases h.table with tabled | unread
  · exact .inl ⟨h.held, .inl tabled⟩
  · cases read : Annotations.ofProgram w.program with
    | ok a => exact .inl ⟨h.held, .inr ⟨unread, a, read⟩⟩
    | error e => exact .inr ⟨e, unread, read⟩

theorem Unreadable.run {e : Error} (h : w.Unreadable e) (m : Mark) : m.run w = .error e w := by
  have need : Workspace.needAnnotations w = .error e w := by
    rw [Workspace.needAnnotations, Change.get_bind, h.1]
    change (liftM (Annotations.ofProgram w.program) >>= _ : Action Annotations) w = _
    rw [h.2]
    rfl
  cases m <;> exact Change.bind_of_error need

theorem Tabled.find?_eq_some {target : Value} {opcode : Opcode} {values : List Value} {r : InstRef} (h : w.Tabled a)
    (annotates : opcode = .decorate ∨ opcode = .memberDecorate)
    (found : a.find? w.program target opcode values = some r) :
    r ∈ w.program.module.annotations ∧ (w.program.inst r).key = (opcode, target :: values) := by
  have listed := List.mem_of_find?_eq_some found
  rw [h.2, Program.notesOn, List.mem_filter, decide_eq_true_eq] at listed
  have matching := List.find?_some found
  exact ⟨listed.1, (Instruction.key_eq_iff annotates).mpr ⟨listed.2, of_decide_eq_true matching⟩⟩

theorem Tabled.find?_eq_none {target : Value} {opcode : Opcode} {values : List Value} (h : w.Tabled a)
    (annotates : opcode = .decorate ∨ opcode = .memberDecorate)
    (absent : a.find? w.program target opcode values = none) :
    (opcode, target :: values) ∉ w.program.noteKeys := by
  intro listed
  obtain ⟨r, member, same⟩ := List.mem_map.mp listed
  obtain ⟨found, matching⟩ := (Instruction.key_eq_iff annotates).mp same
  refine List.find?_eq_none.mp absent r ?_ (decide_eq_true matching)
  rw [h.2, Program.notesOn, List.mem_filter, decide_eq_true_eq]
  exact ⟨member, found⟩

theorem notesOn_noted {p : Program} (held : ∀ r ∈ p.module.annotations, p.Holds r) (i : Instruction) (target : Value) :
    ((p.made i).appended .annotations ⟨p.instructions.size⟩).notesOn target =
      p.notesOn target ++ if i.target? = some target then [⟨p.instructions.size⟩] else [] := by
  have old : p.module.annotations.filter (fun r => ((p.made i).inst r).target? = some target) = p.notesOn target :=
    List.filter_congr fun r member => by rw [Program.inst_made_of_lt i (held r member)]
  change (p.module.annotations ++ [_]).filter (fun r => ((p.made i).inst r).target? = some target) = _
  rw [List.filter_append, old, List.filter_singleton, Program.inst_made, Bool.cond_decide]

/-- A new annotation is listed behind all others, also in the table. -/
theorem Tabled.annotate (h : w.Tabled a) (held : ∀ r ∈ w.program.module.annotations, w.program.Holds r)
    {target : Value} {opcode : Opcode} {operands : List Operand}
    (annotates : opcode = .decorate ∨ opcode = .memberDecorate)
    (absent : a.find? w.program target opcode (operands.map Operand.value) = none) :
    ∃ w', annotate a target opcode operands w = .ok ⟨w.program.instructions.size⟩ w' ∧
      w'.program = (w.program.made { opcode, operands := .ofId target :: operands }).appended .annotations
        ⟨w.program.instructions.size⟩ ∧ ∃ b, w'.Tabled b := by
  let i : Instruction := { opcode, operands := .ofId target :: operands }
  let r : InstRef := ⟨w.program.instructions.size⟩
  let q := (w.program.made i).appended .annotations r
  have targeted : i.target? = some target := by
    rcases annotates with rfl | rfl <;> rfl
  have inst : q.inst r = i := Program.inst_made _ i
  -- The annotation has its target, so the table can be told of it.
  have analyzed : a.analyze q r = .ok _ := Annotations.analyze_of_target (inst ▸ targeted)
  have run : Change.After (Workspace.annotate a target opcode operands) w
      (fun r' w' => r' = r ∧ w'.program = q ∧ ∃ b, w'.Tabled b) fun _ _ => False := by
    unfold Workspace.annotate
    apply Change.After.bind_get
    rw [absent]
    refine .bind (.within (Program.after_newInst (.bind ?_)))
    refine .bind (.within (Program.after_append (.bind (.modify (.bind_get ?_)))))
    dsimp only
    rw [h.1]
    refine .bind (.check (fun b read => .modify (.pure ⟨rfl, rfl, b, rfl, fun other => ?_⟩)) fun e failed => ?_)
    · rw [Annotations.on_analyze read, h.2]
      refine .trans ?_ (notesOn_noted held i other).symm
      change (if (q.inst r).target? = some other then _ else _) = _
      rw [inst]
      split <;> simp only [List.append_nil]
    · cases analyzed.symm.trans failed
  obtain ⟨r', w', done, rfl, program, tabled⟩ := exists_ok run
  exact ⟨w', done, program, tabled⟩

/-! ### One request -/

structure Reuses (w : Workspace) (k : Opcode × List Value) (r : InstRef) (w' : Workspace) : Prop where
  listed : r ∈ w.program.module.annotations
  key : (w.program.inst r).key = k
  program : w'.program = w.program
  unchanged : ∀ a, w.Tabled a → w' = w

structure Lists (w : Workspace) (k : Opcode × List Value) (r : InstRef) (w' : Workspace) : Prop where
  missing : k ∉ w.program.noteKeys
  name : r = ⟨w.program.instructions.size⟩
  program : ∃ i : Instruction, i.key = k ∧ w'.program = (w.program.made i).appended .annotations r

namespace Lists

variable {r s : InstRef} (h : w.Lists k r w')
include h

theorem inst_old (old : w.program.Holds s) : w'.program.inst s = w.program.inst s := by
  obtain ⟨-, rfl, i, -, program⟩ := h
  exact program ▸ Program.inst_made_of_lt i old

theorem key : (w'.program.inst r).key = k := by
  obtain ⟨-, rfl, i, rfl, program⟩ := h
  exact program ▸ congrArg Instruction.key (w.program.inst_made i)

theorem size : w'.program.instructions.size = w.program.instructions.size + 1 := by
  obtain ⟨-, rfl, i, -, program⟩ := h
  exact program ▸ Program.size_made ..

theorem module : w'.program.module =
    { w.program.module with annotations := w.program.module.annotations ++ [r] } := by
  obtain ⟨-, rfl, i, -, program⟩ := h
  exact program ▸ rfl

theorem held (held : ∀ s ∈ w.program.module.annotations, w.program.Holds s) :
    ∀ s ∈ w'.program.module.annotations, w'.program.Holds s := by
  rw [h.module]
  refine List.forall_mem_append.mpr ⟨fun s member => ?_, List.forall_mem_singleton.mpr ?_⟩
  · exact Nat.lt_of_lt_of_eq (Nat.lt_succ_of_lt (held s member)) h.size.symm
  · rw [h.name]
    exact Nat.lt_of_lt_of_eq (Nat.lt_succ_self _) h.size.symm

theorem noteKeys (held : ∀ s ∈ w.program.module.annotations, w.program.Holds s) :
    w'.program.noteKeys = w.program.noteKeys ++ [k] := by
  have old : (w.program.module.annotations.map fun s => (w'.program.inst s).key) = w.program.noteKeys :=
    List.map_congr_left fun s member => congrArg _ (h.inst_old (held s member))
  rw [Program.noteKeys, h.module, List.map_append, old, List.map_singleton, h.key]

end Lists

theorem Markable.refused (h : w.Markable) (unnumbered : m.key? = none) :
    ∃ w', m.run w = .error (.fault .notANumber) w' ∧ w'.program = w.program ∧ ∃ a, w'.Tabled a := by
  obtain ⟨a, w', need, program, tabled, -⟩ := h.needAnnotations
  refine ⟨w', ?_, program, a, tabled⟩
  rw [Mark.run_of_no_key unnumbered, Change.bind_of_ok need]
  rfl

theorem Markable.answered (h : w.Markable) (asked : m.key? = some k) :
    ∃ r w', m.run w = .ok r w' ∧ (∃ a, w'.Tabled a) ∧ (w.Reuses k r w' ∨ w.Lists k r w') := by
  obtain ⟨target, operands, key, annotates, run⟩ := Mark.run_of_key asked
  obtain ⟨a, w₁, need, program, tabled, same⟩ := h.needAnnotations
  rw [run, Change.bind_of_ok need]
  cases found : a.find? w₁.program target k.1 (operands.map Operand.value) with
  | some r =>
    obtain ⟨listed, key'⟩ := tabled.find?_eq_some annotates found
    rw [program, ← key] at key'
    refine ⟨r, w₁, ?_, ⟨a, tabled⟩, .inl ⟨program ▸ listed, key', program, same⟩⟩
    rw [annotate, Change.get_bind, found]
    rfl
  | none =>
    have missing := tabled.find?_eq_none annotates found
    rw [program, ← key] at missing
    obtain ⟨w', done, program', tabled'⟩ := tabled.annotate (program ▸ h.held) annotates found
    rw [program] at done program'
    let i : Instruction := { opcode := k.1, operands := .ofId target :: operands }
    exact ⟨_, w', done, tabled', .inr ⟨missing, rfl, i, key.symm, program'⟩⟩

/-! ### Many requests -/

def afterMark (w : Workspace) (m : Mark) : Workspace :=
  Change.finalState (m.run w)

def afterMarks (w : Workspace) (marks : List Mark) : Workspace :=
  marks.foldl afterMark w

structure Noted (start : Workspace) (marks : List Mark) (new : List InstRef) (w : Workspace) : Prop where
  markable : w.Markable
  table : marks ≠ [] → ∃ a, w.Tabled a
  module : w.program.module =
    { start.program.module with annotations := start.program.module.annotations ++ new }
  longer : start.program.instructions.size ≤ w.program.instructions.size
  kept : ∀ r, start.program.Holds r → w.program.inst r = start.program.inst r
  fresh : ∀ r ∈ new, ¬start.program.Holds r
  distinct : (new.map fun r => (w.program.inst r).key).Nodup
  apart : ∀ r ∈ new, (w.program.inst r).key ∉ start.program.noteKeys
  keys : ∀ k, k ∈ w.program.noteKeys ↔ k ∈ start.program.noteKeys ∨ ∃ m ∈ marks, m.key? = some k

variable {start : Workspace} {marks : List Mark} {new : List InstRef} {r : InstRef}

theorem Noted.nil (h : start.Markable) : Noted start [] [] start where
  markable := h
  table some := absurd rfl some
  module := by rw [List.append_nil]
  longer := Nat.le_refl _
  kept _ _ := rfl
  fresh := nofun
  distinct := List.nodup_nil
  apart := nofun
  keys k := by simp only [List.not_mem_nil, false_and, exists_false, or_false]

/-- A request that finds its annotation, or asks for none, adds no key. -/
theorem Noted.reused (h : Noted start marks new w) (program : w'.program = w.program) (tabled : ∃ a, w'.Tabled a)
    (present : ∀ k, m.key? = some k → k ∈ w.program.noteKeys) : Noted start (marks ++ [m]) new w' where
  markable := ⟨program ▸ h.markable.held, .inl tabled⟩
  table _ := tabled
  module := program ▸ h.module
  longer := program ▸ h.longer
  kept := program ▸ h.kept
  fresh := h.fresh
  distinct := program ▸ h.distinct
  apart := program ▸ h.apart
  keys k := by
    rw [program, h.keys]
    simp only [List.mem_append, List.mem_singleton, or_and_right, exists_or, exists_eq_left, ← or_assoc]
    exact (or_iff_left_of_imp fun asked => (h.keys k).mp (present k asked)).symm

/-- A request for a key that is missing adds one annotation. -/
theorem Noted.listed (h : Noted start marks new w) (asked : m.key? = some k) (lists : w.Lists k r w')
    (tabled : ∃ a, w'.Tabled a) : Noted start (marks ++ [m]) (new ++ [r]) w' := by
  have among (s : InstRef) (member : s ∈ new) : s ∈ w.program.module.annotations := by
    rw [h.module]
    exact List.mem_append_right _ member
  have old (s : InstRef) (member : s ∈ new) : w'.program.inst s = w.program.inst s :=
    lists.inst_old (h.markable.held s (among s member))
  have newKeys : (new.map fun s => (w'.program.inst s).key) = new.map fun s => (w.program.inst s).key :=
    List.map_congr_left fun s member => congrArg _ (old s member)
  constructor
  case markable => exact ⟨lists.held h.markable.held, .inl tabled⟩
  case table => exact fun _ => tabled
  case module => rw [lists.module, h.module, List.append_assoc]
  case longer => exact Nat.le_trans h.longer (Nat.le_of_lt (Nat.lt_of_lt_of_eq (Nat.lt_succ_self _) lists.size.symm))
  case kept => exact fun s held => (lists.inst_old (Nat.lt_of_lt_of_le held h.longer)).trans (h.kept s held)
  case fresh =>
    refine List.forall_mem_append.mpr ⟨h.fresh, List.forall_mem_singleton.mpr ?_⟩
    exact lists.name ▸ Nat.not_lt.mpr h.longer
  case distinct =>
    rw [List.map_append, newKeys, List.map_singleton, lists.key]
    refine List.nodup_append.mpr ⟨h.distinct, List.pairwise_singleton _ _, fun _ member _ within same => ?_⟩
    obtain rfl := List.mem_singleton.mp within
    obtain ⟨s, member', rfl⟩ := List.mem_map.mp member
    exact lists.missing (List.mem_map.mpr ⟨s, among s member', same⟩)
  case apart =>
    refine List.forall_mem_append.mpr ⟨fun s member => old s member ▸ h.apart s member, ?_⟩
    rw [List.forall_mem_singleton, lists.key]
    -- A key of the start is among the keys of now, and the request found none of its own.
    exact fun present => lists.missing ((h.keys _).mpr (.inl present))
  case keys =>
    intro k'
    rw [lists.noteKeys h.markable.held, List.mem_append, List.mem_singleton, h.keys]
    simp only [List.mem_append, List.mem_singleton, or_and_right, exists_or, exists_eq_left, ← or_assoc, asked,
      Option.some.injEq]
    exact or_congr_right eq_comm

/-- Requests list annotations for the keys that are missing, one after the other. -/
theorem noted_afterMarks (h : start.Markable) (marks : List Mark) :
    ∃ new, Noted start marks new (start.afterMarks marks) := by
  induction marks using List.reverseRecOn with
  | nil => exact ⟨[], .nil h⟩
  | append_singleton earlier last ih =>
    obtain ⟨new, noted⟩ := ih
    have now : start.afterMarks (earlier ++ [last]) = Change.finalState (last.run (start.afterMarks earlier)) :=
      List.foldl_append
    rw [now]
    cases asked : last.key? with
    | none =>
      obtain ⟨w', refused, program, tabled⟩ := noted.markable.refused asked
      rw [refused]
      exact ⟨new, noted.reused program tabled fun k asked' => absurd (asked.symm.trans asked') nofun⟩
    | some k =>
      obtain ⟨r, w', answered, tabled, reuses | lists⟩ := noted.markable.answered asked
      · rw [answered]
        refine ⟨new, noted.reused reuses.program tabled fun k' asked' => ?_⟩
        obtain rfl := Option.some.inj (asked.symm.trans asked')
        exact List.mem_map.mpr ⟨r, reuses.listed, reuses.key⟩
      · rw [answered]
        exact ⟨new ++ [r], noted.listed asked lists tabled⟩

theorem Unreadable.afterMarks {e : Error} (h : w.Unreadable e) (marks : List Mark) : w.afterMarks marks = w := by
  induction marks with
  | nil => rfl
  | cons m rest ih =>
    change (w.afterMark m).afterMarks rest = w
    rw [afterMark, h.run m]
    exact ih

/-- Requests for decorations act on the set of keys. Nothing of the module changes but that new annotations follow the
old ones, one for each key that was asked for and was missing. A request with a key is answered by an annotation of the
key; if it was made before, nothing changes at all. A request without a key is refused. If the old annotations cannot be
read, all requests are refused. -/
theorem keys_of_marks (w : Workspace) (marks : List Mark) (live : w.Mirrored) :
    let q := w.afterMarks marks
    (∃ e, w.Unreadable e ∧ q = w ∧ ∀ m : Mark, m.run q = .error e q) ∨
    (∃ new, q.program.module = { w.program.module with annotations := w.program.module.annotations ++ new } ∧
      (∀ r, w.program.Holds r → q.program.inst r = w.program.inst r) ∧ (∀ r ∈ new, ¬w.program.Holds r) ∧
      (new.map fun r => (q.program.inst r).key).Nodup ∧ ∀ r ∈ new, (q.program.inst r).key ∉ w.program.noteKeys) ∧
    (∀ k, k ∈ q.program.noteKeys ↔ k ∈ w.program.noteKeys ∨ ∃ m ∈ marks, m.key? = some k) ∧
    (∀ (m : Mark) k, m.key? = some k → ∃ r q', m.run q = .ok r q' ∧ r ∈ q'.program.module.annotations ∧
      (q'.program.inst r).key = k ∧ (m ∈ marks → q' = q)) ∧
    (∀ m : Mark, m.key? = none → ∃ q', m.run q = .error (.fault .notANumber) q' ∧ q'.program = q.program) ∧
    ∀ marks', (∀ m, m ∈ marks ↔ m ∈ marks') →
      ∀ k, k ∈ q.program.noteKeys ↔ k ∈ (w.afterMarks marks').program.noteKeys := by
  intro q
  rcases live.markable_or_unreadable with markable | ⟨e, unreadable⟩
  case inr =>
    have unchanged : q = w := unreadable.afterMarks marks
    rw [unchanged]
    exact .inl ⟨e, unreadable, rfl, unreadable.run⟩
  obtain ⟨new, noted⟩ := noted_afterMarks markable marks
  refine .inr ⟨⟨new, noted.module, noted.kept, noted.fresh, noted.distinct, noted.apart⟩, noted.keys,
    fun m k asked => ?_, fun m unnumbered => ?_, fun marks' same k => ?_⟩
  · obtain ⟨r, q', answered, -, reuses | lists⟩ := noted.markable.answered asked
    · refine ⟨r, q', answered, reuses.program ▸ reuses.listed, reuses.program ▸ reuses.key, fun again => ?_⟩
      obtain ⟨a, tabled⟩ := noted.table (List.ne_nil_of_mem again)
      exact reuses.unchanged a tabled
    · obtain ⟨missing, rfl, i, rfl, program⟩ := lists
      refine ⟨_, q', answered, ?_, ?_, fun again => absurd ((noted.keys _).mpr (.inr ⟨m, again, asked⟩)) missing⟩
      · rw [program]
        exact List.mem_append_right _ (List.mem_singleton_self _)
      · rw [program]
        exact congrArg _ (Program.inst_made _ i)
  · obtain ⟨q', refused, program, -⟩ := noted.markable.refused unnumbered
    exact ⟨q', refused, program⟩
  · obtain ⟨new', noted'⟩ := noted_afterMarks markable marks'
    have asked : (∃ m ∈ marks, m.key? = some k) ↔ ∃ m ∈ marks', m.key? = some k := by
      simp only [same]
    exact (noted.keys k).trans ((or_congr_right asked).trans (noted'.keys k).symm)

def marked : Workspace where
  program := {
    instructions := ⟨#[⟨{ opcode := .typeStruct, resultId := 1 }, none⟩,
      ⟨{ opcode := .decorate, operands := [.ofId (.int 1), ⟨.decoration, .int 2⟩] }, none⟩]⟩
    module := { idBound := 2, annotations := [⟨1⟩], typesValues := [⟨0⟩] } }

/-- The decoration that is there is asked for again, its number as a numeral, two decorations of a member that begin
alike, one of them twice, and one without a number. -/
theorem keys_of_marks_sample :
    let marks : List Mark := [.member (.int 1) (.int 0) (.int 35) [], .own (.int 1) (.str "2") [],
      .member (.int 1) (.int 0) (.int 35) [.int 0], .member (.int 1) (.int 0) (.str "35") [],
      .own (.int 1) (.str "") []]
    marked.Mirrored ∧ (marked.afterMarks marks).program.module.annotations = [⟨1⟩, ⟨2⟩, ⟨3⟩] ∧
      ∃ r, (Mark.own (.int 1) (.str "2") []).run (marked.afterMarks marks) = .ok r (marked.afterMarks marks) := by
  intro marks
  have live : marked.Mirrored := ⟨by decide, .inr rfl⟩
  have read : Annotations.ofProgram marked.program = .ok _ := rfl
  have asked : (Mark.own (.int 1) (.str "2") []).key? = some (.decorate, [.int 1, .int 2]) := by decide +kernel
  obtain ⟨e, unreadable, -⟩ | ⟨-, -, answered, -⟩ := keys_of_marks marked marks live
  · cases read.symm.trans unreadable.2
  obtain ⟨r, q', ran, -, -, same⟩ := answered _ _ asked
  obtain rfl := same (List.mem_cons_of_mem _ (List.mem_cons_self ..))
  exact ⟨live, by decide +kernel, r, ran⟩

end Workspace

end BlockTally
