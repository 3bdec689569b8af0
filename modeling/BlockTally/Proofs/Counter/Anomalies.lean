import BlockTally.Proofs.Counter.Operations
import BlockTally.Proofs.Counter.Turns
import BlockTally.Proofs.Ty.Decorating

/-! The anomaly of a buffer type that nothing uses.

A buffer type has a decoration, wherever it comes from. That decoration is an annotation of the module, whose first
operand is the type, so an index of uses that overlooks no annotation has a use of the type.
-/

set_option autoImplicit false

namespace BlockTally

open Change Account Contract

namespace Program

def TargetsIds (p : Program) : Prop :=
  ∀ r ∈ p.module.annotations, (p.inst r).annotates = true → ∀ operand ∈ (p.inst r).operands.head?, operand.isId = true

instance (p : Program) : Decidable p.TargetsIds :=
  inferInstanceAs (Decidable (∀ r ∈ p.module.annotations, (p.inst r).annotates = true →
    ∀ operand ∈ (p.inst r).operands.head?, operand.isId = true))

def Notes (p : Program) (target : Value) : Prop :=
  ∃ r ∈ p.module.annotations, (p.inst r).target? = some target

instance (p : Program) (target : Value) : Decidable (p.Notes target) :=
  inferInstanceAs (Decidable (∃ r ∈ p.module.annotations, (p.inst r).target? = some target))

theorem annotations_appended (p : Program) {place : Section} (r : InstRef) (other : place ≠ .annotations) :
    (p.appended place r).module.annotations = p.module.annotations := by
  cases place <;> first | rfl | exact absurd rfl other

end Program

/-- The target of an annotation is one of the ids it uses. -/
theorem Instruction.target_mem_usedIds {i : Instruction} {v : Value} (found : i.target? = some v)
    (id : ∀ operand ∈ i.operands.head?, operand.isId = true) : v ∈ i.usedIds := by
  unfold target? at found
  split at found
  · obtain ⟨operand, first, rfl⟩ := Option.map_eq_some_iff.mp found
    have member : operand ∈ i.operands.filter Operand.isId :=
      List.mem_filter.mpr ⟨List.mem_of_head? first, id operand first⟩
    exact List.mem_append_right _ (List.mem_map_of_mem member)
  · cases found

namespace Workspace

/-- No annotation is overlooked. Where decorated types are found, the module has annotations of them. -/
structure Noticing (w : Workspace) : Prop where
  held : ∀ r ∈ w.program.module.annotations, w.program.Holds r
  targets : w.program.TargetsIds
  uses : ∀ u, w.facts.uses = some u → u.Tells w.program.inst w.program.module.annotations
  annotations : ∀ a, w.facts.annotations = some a → ∀ target, a.on target ≠ [] → w.program.Notes target
  types : ∀ t, w.facts.types = some t → ∀ key entry, t.byType.get? key = some entry → key.decorations ≠ [] →
    w.program.Notes (.int entry.id)

variable {w w' : Workspace} {r : InstRef} {lengths : Value → Prop} {texts targets : Set Value}

theorem noticing_of_targetsIds {p : Program} (closed : p.Closed) (targets : p.TargetsIds) :
    Noticing { program := p } :=
  ⟨fun _ member => closed _ (Program.mem_allInsts_of_list .annotations member), targets, nofun, nofun, nofun⟩

/-- What is annotated has a use that is known. -/
theorem Noticing.usesOf_ne_nil (h : w.Noticing) {u : Uses} {target : Value} (found : w.facts.uses = some u)
    (noted : w.program.Notes target) : u.usesOf target ≠ [] := by
  obtain ⟨r, listed, target⟩ := noted
  have annotates : (w.program.inst r).annotates = true := by
    unfold Instruction.target? at target
    split at target
    · assumption
    · cases target
  have used := Instruction.target_mem_usedIds target (h.targets r listed annotates)
  obtain ⟨use, known, -⟩ := (h.uses u found).told r listed _ used
  exact List.ne_nil_of_mem known

theorem Noticing.notes_of_stands (h : w.Noticing) {id : Id} {ty : Ty} (stands : w.StandsAs id ty)
    (decorated : ty.decorations ≠ []) : w.program.Notes (.int id) := by
  rcases stands.decorated decorated with ⟨a, found, some⟩ | ⟨t, entry, found, handed, rfl⟩
  · exact h.annotations a found _ some
  · exact h.types t found _ entry handed (ty.decorations_key.symm ▸ decorated)

/-! ### Changes elsewhere -/

/-- The annotations and what is known of them stay the same. -/
theorem Noticing.of_same (h : w.Noticing) (module : w'.program.module.annotations = w.program.module.annotations)
    (inst : ∀ r ∈ w.program.module.annotations, w'.program.inst r = w.program.inst r)
    (size : w.program.instructions.size ≤ w'.program.instructions.size)
    (uses : ∀ u, w'.facts.uses = some u → u.Tells w'.program.inst w.program.module.annotations)
    (annotations : w'.facts.annotations = w.facts.annotations) (types : w'.facts.types = w.facts.types) :
    w'.Noticing := by
  have notes {target : Value} (noted : w.program.Notes target) : w'.program.Notes target := by
    obtain ⟨r, listed, found⟩ := noted
    exact ⟨r, module ▸ listed, inst r listed ▸ found⟩
  constructor
  case held =>
    intro r listed
    exact Nat.lt_of_lt_of_le (h.held r (module ▸ listed)) size
  case targets =>
    intro r listed
    rw [module] at listed
    rw [inst r listed]
    exact h.targets r listed
  case uses =>
    rw [module]
    exact uses
  case annotations =>
    intro a found target some
    exact notes (h.annotations a (annotations ▸ found) target some)
  case types =>
    intro t found key entry handed decorated
    exact notes (h.types t (types ▸ found) key entry handed decorated)

theorem Noticing.recorded {u' : Uses} {inst : InstRef → Instruction} (h : w.Noticing)
    (found : (w.facts.uses.map fun u => u.record r (inst r)) = some u')
    (others : ∀ s ∈ w.program.module.annotations, s ≠ r → inst s = w.program.inst s) :
    u'.Tells inst (w.program.module.annotations ++ [r]) := by
  obtain ⟨u, known, rfl⟩ := Option.map_eq_some_iff.mp found
  exact (h.uses u known).record others

theorem Noticing.nextBound (h : w.Noticing) : Noticing { w with program := w.program.nextBound } :=
  h.of_same rfl (fun _ _ => rfl) (Nat.le_refl _) h.uses rfl rfl

theorem Noticing.made (h : w.Noticing) (i : Instruction) : Noticing { w with program := w.program.made i } := by
  have inst : ∀ r ∈ w.program.module.annotations, (w.program.made i).inst r = w.program.inst r :=
    fun r listed => Program.inst_made_of_lt i (h.held r listed)
  refine h.of_same rfl inst (Nat.le_of_lt ?_) (fun u found => (h.uses u found).congr inst) rfl rfl
  exact Nat.lt_of_lt_of_eq (Nat.lt_succ_self _) (w.program.size_made i).symm

/-- An instruction is listed that need not be noticed. -/
theorem Noticing.listed (h : w.Noticing) {place : Section} (r : InstRef) (other : place ≠ .annotations) :
    (w.listed place r).Noticing := by
  have annotations := w.program.annotations_appended r other
  refine h.of_same annotations (fun _ _ => rfl) (Nat.le_refl _) (fun u found => ?_) rfl rfl
  exact (h.recorded found fun _ _ _ => rfl).subset (List.subset_append_left _ _)

theorem Noticing.featured (h : w.Noticing) {place : Section} (i : Instruction) (change : Features → Features)
    (other : place ≠ .annotations) : (w.featured place i change).Noticing := by
  have made := h.made i
  have annotations := (w.program.made i).annotations_appended ⟨w.program.instructions.size⟩ other
  exact made.of_same annotations (fun _ _ => rfl) (Nat.le_refl _) made.uses rfl rfl

/-- The first operand stays, or the new one comes first. -/
theorem withOperand_targets {p : Program} {operand : Operand} (held : p.Holds r)
    (targets : (p.inst r).annotates = true → ∀ first ∈ (p.inst r).operands.head?, first.isId = true)
    (id : (p.inst r).annotates = true → (p.inst r).operands = [] → operand.isId = true) :
    ((p.withOperand r operand).inst r).annotates = true →
      ∀ first ∈ ((p.withOperand r operand).inst r).operands.head?, first.isId = true := by
  rw [Program.withOperand, Program.inst_changeInst, if_pos ⟨rfl, held⟩]
  intro annotates first among
  cases operands : (p.inst r).operands with
  | nil =>
    obtain rfl : operand = first := by simpa [operands] using among
    exact id annotates operands
  | cons front rest =>
    obtain rfl : front = first := by simpa [operands] using among
    exact targets annotates front (by rw [operands]; rfl)

/-- An instruction gets an operand, and is recorded again. -/
theorem Noticing.longer (h : w.Noticing) {operand : Operand}
    (id : (w.program.inst r).annotates = true → (w.program.inst r).operands = [] → operand.isId = true) :
    (w.longer r operand).Noticing := by
  have grown (s : InstRef) := w.program.inst_withOperand_extended r s operand
  -- A longer instruction has the target that it had.
  have notes {target : Value} (noted : w.program.Notes target) : (w.longer r operand).program.Notes target := by
    obtain ⟨s, listed, found⟩ := noted
    obtain ⟨more, same⟩ := grown s
    exact ⟨s, listed, same ▸ Instruction.target?_extended more found⟩
  constructor
  case held =>
    intro s listed
    exact Nat.lt_of_lt_of_eq (h.held s listed) (w.program.size_withOperand r operand).symm
  case targets =>
    intro s listed
    by_cases same : s = r
    · subst same
      exact withOperand_targets (h.held s listed) (h.targets s listed) id
    · rw [show (w.longer r operand).program.inst s = w.program.inst s from
        w.program.inst_withOperand_of_ne operand same]
      exact h.targets s listed
  case uses =>
    intro u found
    obtain ⟨u, known, rfl⟩ := Option.map_eq_some_iff.mp found
    have told := (h.uses u known).recordUses (r := r) fun s _ other => w.program.inst_withOperand_of_ne operand other
    exact told.subset (List.subset_append_left _ _)
  case annotations => exact fun a found target some => notes (h.annotations a found target some)
  case types => exact fun t found key entry handed decorated => notes (h.types t found key entry handed decorated)

/-! ### Annotations -/

/-- An annotation is listed and recorded. -/
theorem Noticing.annotated (h : w.Noticing) {found : Option Annotations} (held : w.program.Holds r)
    (target : (w.program.inst r).annotates = true → ∀ operand ∈ (w.program.inst r).operands.head?, operand.isId = true)
    (analyzed : ∀ a', found = some a' → ∃ a, w.facts.annotations = some a ∧ a.analyze w.program r = .ok a') :
    (w.annotated r found).Noticing := by
  -- No annotation is lost, so what was noticed stays so.
  have notes {v : Value} (noted : w.program.Notes v) : (w.annotated r found).program.Notes v := by
    obtain ⟨s, listed, target⟩ := noted
    exact ⟨s, List.mem_append_left _ listed, target⟩
  constructor
  case held =>
    intro s listed
    rcases List.mem_append.mp listed with old | new
    · exact h.held s old
    · obtain rfl := List.mem_singleton.mp new
      exact held
  case targets =>
    intro s listed
    rcases List.mem_append.mp listed with old | new
    · exact h.targets s old
    · obtain rfl := List.mem_singleton.mp new
      exact target
  case uses =>
    intro u known
    exact h.recorded known fun _ _ _ => rfl
  case annotations =>
    intro a' known v some
    obtain ⟨a, before, step⟩ := analyzed a' known
    rw [Annotations.on_analyze step] at some
    split at some
    next here => exact ⟨r, List.mem_append_right _ (List.mem_singleton_self r), here⟩
    next => exact notes (h.annotations a before v some)
  case types => exact fun t known key entry handed decorated => notes (h.types t known key entry handed decorated)

/-! ### Types that are read -/

/-- A type that is read with decorations has an annotation. -/
theorem decorated_ne_nil {plain ty : Ty} {own members : List Decoration}
    (decorated : plain.decorated own members = .ok ty) (some : ty.decorations ≠ []) : own ≠ [] := by
  rintro rfl
  obtain ⟨sorted, sort, rest⟩ := except_bind_ok_iff.mp decorated
  obtain rfl := Except.ok.inj sort
  refine some ?_
  cases plain with
  | struct =>
    obtain ⟨inner, -, last⟩ := except_bind_ok_iff.mp rest
    obtain rfl := Except.ok.inj last
    rfl
  | atom | wrap | function =>
    obtain rfl := Except.ok.inj rest
    rfl

theorem Noticing.registered {p : Program} {t : TypeTable} {id : Id} {ty : Ty}
    (before : ∀ key entry, t.byType.get? key = some entry → key.decorations ≠ [] → p.Notes (.int entry.id))
    (decorated : ty.decorations ≠ [] → p.Notes (.int id)) :
    ∀ key entry, (t.register id ty).byType.get? key = some entry → key.decorations ≠ [] → p.Notes (.int entry.id) := by
  intro key entry found some
  rcases TypeTable.of_byType_register found with old | ⟨rfl, rfl⟩
  · exact before key entry old some
  · exact decorated (ty.decorations_key ▸ some)

theorem Noticing.read (h : w.Noticing) {t : TypeTable} (read : w.HasRead t) :
    ∀ key entry, t.byType.get? key = some entry → key.decorations ≠ [] → w.program.Notes (.int entry.id) := by
  obtain ⟨a, found, fold⟩ := read
  refine except_foldlM_ok (fun _ (t : TypeTable) => ∀ key entry, t.byType.get? key = some entry →
    key.decorations ≠ [] → w.program.Notes (.int entry.id)) fold nofun fun done r rest t t' split held step => ?_
  obtain ⟨plain, -, ty, decorated, -, rfl⟩ := TypeTable.read_ok_iff.mp step
  refine registered held fun some => ?_
  have own := decorated_ne_nil decorated some
  have declared : w.program.declarations ≠ [] := split ▸ List.append_ne_nil_of_right_ne_nil _ (List.cons_ne_nil _ _)
  refine h.annotations a (found declared) _ fun none => own ?_
  rw [Annotations.ofType, none]
  rfl

/-! ### Turns -/

theorem Noticing.indexed (h : w.Noticing) :
    Noticing { w with facts := { w.facts with uses := some (Uses.ofProgram w.program) } } := by
  refine h.of_same rfl (fun _ _ => rfl) (Nat.le_refl _) (fun u found => ?_) rfl rfl
  obtain rfl := Option.some.inj found
  exact (Uses.ofProgram_tells w.program).subset fun r listed => Program.mem_allInsts_of_list .annotations listed

theorem Noticing.analyzed (h : w.Noticing) {a : Annotations} (read : Annotations.ofProgram w.program = .ok a) :
    Noticing { w with facts := { w.facts with annotations := some a } } := by
  refine ⟨h.held, h.targets, h.uses, fun a found target some => ?_, h.types⟩
  obtain rfl := Option.some.inj found
  obtain ⟨r, member⟩ := List.exists_mem_of_ne_nil _ some
  exact ⟨r, (Annotations.mem_on read).mp member⟩

theorem Noticing.find (h : w.Noticing) (find : w.Find w') : w'.Noticing := by
  cases find with
  | uses => exact h.indexed
  | annotations _ read => exact h.analyzed read
  | features => exact h.of_same rfl (fun _ _ => rfl) (Nat.le_refl _) h.uses rfl rfl

theorem Noticing.ask (h : w.Noticing) (ask : Ask lengths w w') : w'.Noticing := by
  cases ask with
  | note note =>
    cases note with
    | find find => exact h.find find
    | annotate _ _ analyzed =>
      refine (h.made _).annotated (w.program.holds_made _) ?_ fun a' same => ?_
      · rw [Program.inst_made]
        intro _ operand first
        obtain rfl := Option.some.inj first
        rfl
      · obtain rfl := Option.some.inj same
        exact analyzed
  | types _ read =>
    refine ⟨h.held, h.targets, h.uses, h.annotations, fun t found => ?_⟩
    obtain rfl := Option.some.inj found
    exact h.read read
  | constants => exact h.of_same rfl (fun _ _ => rfl) (Nat.le_refl _) h.uses rfl rfl
  | declare => exact (h.nextBound.made _).listed _ nofun
  | register found _ _ decorated =>
    refine ⟨h.held, h.targets, h.uses, h.annotations, fun t' same => ?_⟩
    obtain rfl := Option.some.inj same
    -- A type with decorations is registered under an id that was annotated.
    refine registered (h.types _ found) fun some => ?_
    obtain ⟨a, known, annotated⟩ := decorated some
    exact h.annotations a known _ annotated

theorem Noticing.aside (h : w.Noticing) (aside : w.Aside texts targets w') : w'.Noticing := by
  cases aside with
  | find find => exact h.find find
  | name => exact (h.made _).listed _ nofun
  | capability | extension => exact h.featured _ _ nofun
  | lengthen _ _ isId => exact h.longer fun _ _ => isId

theorem Noticing.turn (h : w.Noticing) (turn : Turn lengths texts w w') : w'.Noticing := by
  cases turn with
  | ask ask => exact h.ask ask
  | aside aside => exact h.aside aside
  | global => exact (h.nextBound.made _).listed _ nofun

theorem Noticing.making (h : w.Noticing) (making : Making (Turn lengths texts) w w') : w'.Noticing := by
  cases making with
  | turn turned => exact h.turn turned
  | take => exact h.nextBound
  | make i => exact h.made i
  | record r =>
    refine h.of_same rfl (fun _ _ => rfl) (Nat.le_refl _) (fun u found => ?_) rfl rfl
    exact (h.recorded found fun _ _ _ => rfl).subset (List.subset_append_left _ _)

theorem Noticing.of_turns (h : w.Noticing) (move : (turns lengths texts).moves w w') : w'.Noticing := by
  induction move with
  | refl => exact h
  | tail _ turn ih => exact ih.turn turn

theorem Noticing.loses (h : w.Noticing) (loses : w.Loses w') : w'.Noticing := by
  cases loses with
  | id => exact h.nextBound

theorem Noticing.of_fails {e : Error} (h : w.Noticing) (failed : (turns lengths texts).fails w e w') : w'.Noticing := by
  obtain ⟨u, walked, ended⟩ := failed
  cases ended with
  | refl => exact h.of_turns walked
  | single lost => exact (h.of_turns walked).loses lost

end Workspace

/-! ### Buffers -/

namespace Job

variable {j j' : Job}

def noticing : Contract Job where
  moves j j' := j.workspace.Noticing → j'.workspace.Noticing ∧ j'.buffer.unusedTypes = j.buffer.unusedTypes
  exhausted _ := True
  refl _ h := ⟨h, rfl⟩
  trans first second h :=
    have held := first h
    have held' := second held.1
    ⟨held'.1, held'.2.trans held.2⟩

theorem noticing_turn {lengths : Value → Prop} {texts : Set Value}
    (turn : Turn (Workspace.Making (Workspace.Turn lengths texts)) j j') : noticing.moves j j' := by
  intro h
  cases turn with
  | work turn => exact ⟨h.making turn, rfl⟩
  | settle same => exact ⟨h, same⟩
  | overlook stands decorated found unused =>
    exact absurd unused (h.usesOf_ne_nil found (h.notes_of_stands stands decorated))

theorem noticing_turns {α : Type} {lengths : Value → Prop} {texts : Set Value} {change : Provision α}
    {post : α → Job → Prop} (h : (turns (Workspace.Making (Workspace.Turn lengths texts))).Keeps change j post) :
    noticing.Keeps change j post := by
  refine h.of_walk (fun _ e => ⟨noticing.refl _, fun _ => True.intro⟩) (fun _ => noticing_turn) ?_
  rintro j e _ (⟨lost⟩)
  exact ⟨fun h => ⟨h.loses lost, rfl⟩, fun _ => True.intro⟩

theorem noticing_bufferId : noticing.Keeps bufferId j fun _ _ => True := by
  have each {j j' : Job} (turned : Turn (Workspace.Turn (fun _ => True) ∅) j j') :
      Turn (Workspace.Making (Workspace.Turn (fun _ => True) ∅)) j j' := turned.mono Workspace.Making.turn
  exact noticing_turns ((turns_bufferId .any).walk_mono each)

end Job

namespace Run

theorem carries_noticing : Carries Job.noticing := by
  refine .of_inserted (fun _ => True.intro) (fun j atomic traceIndex => ?_) fun j b gap refs h => ?_
  · have sizes : Workspace.Sizes (Workspace.turns (fun _ => True) ∅) (fun _ => True) j.workspace := .any
    exact Job.noticing_turns (Job.turns_increment sizes atomic traceIndex)
  · have module := @Program.module_inserted j.workspace.program b gap refs
    refine ⟨h.of_same (congrArg Module.annotations module) (fun r _ => Program.inst_inserted r)
      (Nat.le_of_eq Program.size_inserted.symm) (fun u found => ?_) rfl rfl, rfl⟩
    exact (h.uses u found).congr fun r _ => Program.inst_inserted r

end Run

/-! ### Any operations -/

namespace Workspace

/-- What is done with a workspace: an operation, or something that only its facts are told. -/
inductive Interaction where
  | operation (op : Operation)
  | record (r : InstRef)
  | recordUses (r : InstRef)
  | register (id : Id) (ty : Ty)

namespace Interaction

def run : Interaction → Action Unit
  | .operation op => op.run
  | .record r => Workspace.record r
  | .recordUses r => Workspace.recordUses r
  | .register id ty => registerType id ty

def after (w : Workspace) (interaction : Interaction) : Workspace :=
  finalState (interaction.run w)

/-- Annotations are made and listed with an id as first operand, and decorated types are registered with the id that
has the decorations. -/
def Fair (w : Workspace) : Interaction → Prop
  | .operation (.note r) => w.program.Holds r ∧
    ((w.program.inst r).annotates = true → ∃ operand ∈ (w.program.inst r).operands.head?, operand.isId = true)
  | .operation (.lengthen r operand) =>
    (w.program.inst r).annotates = true → (w.program.inst r).operands = [] → operand.isId = true
  | .register id ty => ty.decorations ≠ [] → w.program.Notes (.int id)
  | _ => True

instance (w : Workspace) (interaction : Interaction) : Decidable (interaction.Fair w) := by
  unfold Fair
  split <;> infer_instance

def AllFair : Workspace → List Interaction → Prop
  | _, [] => True
  | w, interaction :: rest => interaction.Fair w ∧ AllFair (interaction.after w) rest

instance decidableAllFair : (w : Workspace) → (interactions : List Interaction) → Decidable (AllFair w interactions)
  | _, [] => .isTrue True.intro
  | w, interaction :: rest => @instDecidableAnd _ _ _ (decidableAllFair (interaction.after w) rest)

end Interaction

variable {w : Workspace}

theorem Noticing.service (h : w.Noticing) (service : Service) :
    After service.run w (fun _ w' => w'.Noticing) fun _ w' => w'.Noticing := by
  have sizes : Sizes (turns (fun _ => True) Set.univ) (fun _ => True) w := .any
  rcases service.run_cases sizes (fun _ _ => True.intro) fun _ _ _ => Set.mem_univ _ with rfl | rfl | turned
  · exact After.bind (After.modify ⟨h.held, h.targets, nofun, nofun, nofun⟩)
  · exact After.bind (after_takeId (fun _ => h) fun _ => h.nextBound)
  · exact After.mono turned (fun _ _ held => h.of_turns held.1) fun _ _ => h.of_fails

/-- An annotation is noticed when it is listed: it has its target, without which the analysis would fail. -/
theorem Noticing.note {r : InstRef} (h : w.Noticing) (fair : (Interaction.operation (.note r)).Fair w) :
    (finalState (Workspace.addAnnotation r w)).Noticing := by
  obtain ⟨held, target⟩ := fair
  refine After.finalState (After.mono after_addAnnotation ?_ fun _ _ failed => ?_)
  · rintro _ _ ⟨found, rfl, -, analyzed⟩
    refine h.annotated held (fun annotates operand first => ?_) analyzed
    obtain ⟨operand', first', id⟩ := target annotates
    exact Option.mem_unique first' first ▸ id
  · obtain ⟨operand, first, -⟩ := target failed.1
    refine absurd ?_ (failed.2 operand.value)
    have place : (w.program.inst r).operands[0]? = some operand := List.head?_eq_getElem? ▸ first
    simp only [Instruction.value, place]

/-- Every operation notices the annotations that are made. -/
theorem Noticing.operation {op : Operation} (h : w.Noticing) (fair : (Interaction.operation op).Fair w) :
    (op.after w).Noticing := by
  unfold Operation.after
  -- Services go in turns, and every turn is noticed. The rest edits the program by hand, or works in a job or a run.
  cases op with
  | service wanted => exact After.finalState (After.discard (h.service wanted))
  | make i => exact After.finalState (After.discard (after_newInst (h.made i)))
  | global r => exact After.finalState (after_listed (h.listed r nofun))
  | debug r => exact After.finalState (after_listed (h.listed r nofun))
  | note r => exact h.note fair
  | lengthen r operand => exact After.finalState (after_longer (h.longer fair))
  | buffer b =>
    have kept := Job.noticing_bufferId (j := { workspace := w, buffer := b })
    refine After.finalState (After.inside (After.mono kept ?_ ?_))
    · exact fun _ _ held => (held.1 h).1
    · exact fun _ _ held => (held.1 h).1
  | instrument b labels atomic f =>
    let r : Run Unit := { job := { workspace := w, buffer := b }, labels, host := () }
    have kept := Run.carries_noticing.instrumentFunction (r := r) atomic f
    refine After.finalState (After.inside (After.mono kept ?_ ?_))
    · exact fun _ _ held => (held.1.1 h).1
    · exact fun _ _ held => (held.1.1 h).1

theorem Noticing.interaction {interaction : Interaction} (h : w.Noticing) (fair : interaction.Fair w) :
    (interaction.after w).Noticing := by
  cases interaction with
  | operation op => exact h.operation fair
  | record r =>
    have turn : Making (Turn (fun _ => True) ∅) w _ := .record r
    exact h.making turn
  | recordUses r =>
    refine h.of_same rfl (fun _ _ => rfl) (Nat.le_refl _) (fun u found => ?_) rfl rfl
    obtain ⟨u, known, rfl⟩ := Option.map_eq_some_iff.mp found
    exact ((h.uses u known).recordUses fun _ _ _ => rfl).subset (List.subset_append_left _ _)
  | register id ty =>
    unfold Interaction.after Interaction.run registerType
    have found : (turns (fun _ => True) ∅).Keeps needTypes w _ := turns_of_asks asks_needTypes
    refine After.finalState (.bind (.mono found ?_ fun _ _ => h.of_fails))
    rintro t w₁ ⟨move, known, program, -⟩
    have h₁ := h.of_turns move
    refine .modify ⟨h₁.held, h₁.targets, h₁.uses, h₁.annotations, fun t' same => ?_⟩
    obtain rfl := Option.some.inj same
    exact registered (h₁.types t known) fun some => program ▸ fair some

theorem Noticing.interactions {interactions : List Interaction} (h : w.Noticing)
    (fair : Interaction.AllFair w interactions) : (interactions.foldl Interaction.after w).Noticing := by
  induction interactions generalizing w with
  | nil => exact h
  | cons interaction rest ih => exact ih (h.interaction fair.1) fair.2

/-- In a workspace nothing is ever found to be wrong with a buffer type: neither when a buffer is asked for there, nor
in any run on its program. -/
structure NeverOverlooks (w : Workspace) : Prop where
  buffer : ∀ b : CounterBuffer,
    (finalState (Job.bufferId { workspace := w, buffer := b })).buffer.unusedTypes = b.unusedTypes
  run : ∀ (σ : Type) (settings : Settings) (hooks : Hooks σ) (r : Run σ), hooks.Quiet → r.program = w.program →
    (finalState (Run.run settings hooks r)).job.buffer.anomalies = []

theorem Noticing.neverOverlooks (h : w.Noticing) : w.NeverOverlooks where
  buffer b := by
    have kept := Job.noticing_bufferId (j := { workspace := w, buffer := b })
    exact After.finalState (After.mono kept (fun _ _ held => (held.1 h).2) fun _ _ held => (held.1 h).2)
  run σ settings hooks r quiet program := by
    -- The run begins with the program alone.
    have start : (Run.prepare settings r).job.workspace.Noticing := by
      have forgotten : Noticing { program := w.program } := ⟨h.held, h.targets, nofun, nofun, nofun⟩
      rwa [← program] at forgotten
    have none {j : Job} (held : Job.noticing.moves (Run.prepare settings r).job j) : j.buffer.anomalies = [] := by
      rw [CounterBuffer.anomalies, (held start).2]
      rfl
    refine After.finalState (After.mono (Run.carries_noticing.run settings quiet) ?_ fun _ _ held => none held.1)
    rintro _ r' ⟨⟨j, held, same⟩, -⟩
    have buffer : r'.job.buffer = j.buffer := by rw [same]
    exact buffer ▸ none held

/-- Where annotations are of ids, no buffer type is ever taken to be unused, whatever is done in the workspace
before. -/
theorem neverOverlooks_of_interactions {p : Program} {interactions : List Interaction} (closed : p.Closed)
    (targets : p.TargetsIds) (fair : Interaction.AllFair { program := p } interactions) :
    (interactions.foldl Interaction.after { program := p }).NeverOverlooks :=
  ((noticing_of_targetsIds closed targets).interactions fair).neverOverlooks

/-- The type of the buffer is declared and its decorations are counted before the buffer is asked for, and a function is
annotated. -/
def sampleInteractions : List Interaction :=
  [.operation (.service .needUses), .operation (.service (.type ({} : CounterBuffer).bufferType)),
   .operation (.make { opcode := .decorate, operands := [.ofId (.int 3), .literal (.int 2)] }),
   .operation (.note ⟨18⟩), .operation (.lengthen ⟨18⟩ (.literal (.int 4))), .record ⟨0⟩, .recordUses ⟨16⟩,
   .register 10 ({} : CounterBuffer).bufferType]

theorem neverOverlooks_of_interactions_sample :
    (sampleInteractions.foldl Interaction.after { program := Run.sample 8 }).NeverOverlooks ∧
      answer? (Job.bufferId { workspace := sampleInteractions.foldl Interaction.after { program := Run.sample 8 } }) =
        some 12 := by
  refine ⟨neverOverlooks_of_interactions (p := Run.sample 8) (by decide) (by decide) ?_, by decide +kernel⟩
  exact (by decide +kernel : Interaction.AllFair { program := Run.sample 8 } sampleInteractions)

end Workspace

end BlockTally
