import BlockTally.Proofs.Counter.Outcome
import BlockTally.Proofs.Counter.Turns
import BlockTally.Proofs.Session

/-! The order of declarations.

Every declaration uses ids of declarations in front of it. A request appends a type after its components and a constant
after its type, so the list stays in this order, wherever the request ends.
-/

set_option autoImplicit false

namespace BlockTally

open Change Account Contract

namespace Program

/-- The declaration has an id of its own below the bound, and uses ids of declarations in front of it only. -/
structure Follows (p : Program) (front : List InstRef) (r : InstRef) : Prop where
  nonzero : (p.inst r).resultId ≠ 0
  taken : (p.inst r).resultId < p.module.idBound
  new : ∀ s ∈ front, (p.inst s).resultId ≠ (p.inst r).resultId
  used : ∀ v ∈ (p.inst r).usedIds, ∃ s ∈ front, v = .int (p.inst s).resultId

instance (p : Program) (front : List InstRef) (r : InstRef) : Decidable (p.Follows front r) :=
  decidable_of_iff ((p.inst r).resultId ≠ 0 ∧ (p.inst r).resultId < p.module.idBound ∧
      (∀ s ∈ front, (p.inst s).resultId ≠ (p.inst r).resultId) ∧
      ∀ v ∈ (p.inst r).usedIds, ∃ s ∈ front, v = .int (p.inst s).resultId)
    ⟨fun h => ⟨h.1, h.2.1, h.2.2.1, h.2.2.2⟩, fun h => ⟨h.nonzero, h.taken, h.new, h.used⟩⟩

def InOrder (p : Program) : Prop :=
  ∀ front r back, p.module.typesValues = front ++ r :: back → p.Follows front r

instance (p : Program) : Decidable p.InOrder :=
  decidable_of_iff
    (∀ (n : Nat) (h : n < p.module.typesValues.length),
      p.Follows (p.module.typesValues.take n) p.module.typesValues[n])
    ⟨fun h front r back split => by simpa [split] using h front.length (by simp [split]),
      fun h n below => h _ _ (p.module.typesValues.drop (n + 1)) (by simp)⟩

def DeclarationsApart (p : Program) : Prop :=
  Version.v1_4 ≤ p.module.version → ∀ r ∈ p.module.entryPoints, r ∉ p.module.typesValues

instance (p : Program) : Decidable p.DeclarationsApart :=
  inferInstanceAs (Decidable (_ → _))

def ListsId (p : Program) (v : Value) : Prop :=
  ∃ r ∈ p.module.typesValues, v = .int (p.inst r).resultId

instance (p : Program) (v : Value) : Decidable (p.ListsId v) :=
  inferInstanceAs (Decidable (∃ r ∈ p.module.typesValues, _))

/-- Declarations are appended to those of the first program, with larger ids than what they use. -/
structure Appends (p q : Program) : Prop where
  longer : p.module.typesValues <+: q.module.typesValues
  same : ∀ r ∈ p.module.typesValues, q.inst r = p.inst r
  larger : ∀ r ∈ q.module.typesValues, r ∉ p.module.typesValues → ∀ v ∈ (q.inst r).usedIds,
    ∃ id, v = .int id ∧ id < (q.inst r).resultId

variable {p q o : Program} {v : Value}

theorem Appends.of_same (typesValues : q.module.typesValues = p.module.typesValues)
    (same : ∀ r ∈ p.module.typesValues, q.inst r = p.inst r) : p.Appends q :=
  ⟨typesValues ▸ List.prefix_rfl, same, fun _ member new => absurd (typesValues ▸ member) new⟩

theorem Appends.trans (first : p.Appends q) (second : q.Appends o) : p.Appends o where
  longer := first.longer.trans second.longer
  same r member := (second.same r (first.longer.subset member)).trans (first.same r member)
  larger r member new := by
    by_cases old : r ∈ q.module.typesValues
    · rw [second.same r old]
      exact first.larger r old new
    · exact second.larger r member old

theorem Appends.lists (h : p.Appends q) (listed : p.ListsId v) : q.ListsId v := by
  obtain ⟨r, member, rfl⟩ := listed
  exact ⟨r, h.longer.subset member, by rw [h.same r member]⟩

theorem Follows.congr {front back : List InstRef} {r : InstRef} (h : p.Follows front r)
    (split : p.module.typesValues = front ++ r :: back) (same : ∀ r ∈ p.module.typesValues, q.inst r = p.inst r)
    (bound : p.module.idBound ≤ q.module.idBound) : q.Follows front r := by
  have own : q.inst r = p.inst r := same r (split ▸ List.mem_append_right _ (List.mem_cons_self ..))
  have before : ∀ s ∈ front, q.inst s = p.inst s := fun s member => same s (split ▸ List.mem_append_left _ member)
  refine ⟨own ▸ h.nonzero, own ▸ Int.lt_of_lt_of_le h.taken bound, fun s member => ?_, fun v used => ?_⟩
  · rw [own, before s member]
    exact h.new s member
  · obtain ⟨s, member, rfl⟩ := h.used v (own ▸ used)
    exact ⟨s, member, by rw [before s member]⟩

structure Ordered (p : Program) : Prop where
  held : ∀ r ∈ p.module.typesValues, p.Holds r
  entries : ∀ r ∈ p.module.entryPoints, p.Holds r
  apart : p.DeclarationsApart
  positive : 1 ≤ p.module.idBound
  inOrder : p.InOrder

theorem Ordered.of_same (h : p.Ordered) (typesValues : q.module.typesValues = p.module.typesValues)
    (same : ∀ r ∈ p.module.typesValues, q.inst r = p.inst r)
    (entryPoints : q.module.entryPoints = p.module.entryPoints) (version : q.module.version = p.module.version)
    (bound : p.module.idBound ≤ q.module.idBound) (size : p.instructions.size ≤ q.instructions.size) : q.Ordered where
  held r member := Nat.lt_of_lt_of_le (h.held r (typesValues ▸ member)) size
  entries r member := Nat.lt_of_lt_of_le (h.entries r (entryPoints ▸ member)) size
  apart := by
    unfold DeclarationsApart
    rw [typesValues, entryPoints, version]
    exact h.apart
  positive := Int.le_trans h.positive bound
  inOrder front r back split := by
    rw [typesValues] at split
    exact (h.inOrder front r back split).congr split same bound

theorem Ordered.of_grows (h : p.Ordered) (grows : p.Grows q) (typesValues : q.module.typesValues = p.module.typesValues)
    (same : ∀ r ∈ p.module.typesValues, q.inst r = p.inst r) : q.Ordered :=
  h.of_same typesValues same grows.module.entryPoints grows.module.version grows.module.bound_le grows.size_le

/-- Ids of declarations are below the bound. -/
theorem Ordered.taken (h : p.Ordered) {r : InstRef} (member : r ∈ p.module.typesValues) :
    (p.inst r).resultId < p.module.idBound := by
  obtain ⟨front, back, split⟩ := List.append_of_mem member
  exact (h.inOrder front r back split).taken

/-- A new declaration uses what is listed. -/
theorem Ordered.declared (h : p.Ordered) {i : Instruction} (free : p.module.idBound < maxIdBound)
    (result : i.resultId = p.module.idBound) (used : ∀ v ∈ i.usedIds, p.ListsId v) :
    (p.declared i).Ordered ∧ p.Appends (p.declared i) := by
  have grows := grows_declared free i
  have typesValues : (p.declared i).module.typesValues = p.module.typesValues ++ [⟨p.instructions.size⟩] := rfl
  have inst : (p.declared i).inst ⟨p.instructions.size⟩ = i := p.inst_declared i
  have same : ∀ r ∈ p.module.typesValues, (p.declared i).inst r = p.inst r :=
    fun r member => p.nextBound.inst_made_of_lt i (h.held r member)
  have bound : (p.declared i).module.idBound = p.module.idBound + 1 := rfl
  have new : (⟨p.instructions.size⟩ : InstRef) ∉ p.module.typesValues := fun old => Nat.lt_irrefl _ (h.held _ old)
  refine ⟨⟨fun r member => ?_, fun r member => grows.holds (h.entries r member), fun late r entry member => ?_, ?_, ?_⟩,
    ⟨⟨_, rfl⟩, same, fun r member other v among => ?_⟩⟩
  · rcases List.mem_append.mp member with old | last
    · exact grows.holds (h.held r old)
    · obtain rfl := List.mem_singleton.mp last
      exact p.nextBound.holds_made i
  · rcases List.mem_append.mp member with old | last
    · exact h.apart late r entry old
    · obtain rfl := List.mem_singleton.mp last
      exact Nat.lt_irrefl _ (h.entries _ entry)
  · exact Int.le_trans h.positive grows.module.bound_le
  -- The new declaration is the last one.
  · intro front r back split
    rcases List.eq_nil_or_concat back with rfl | ⟨others, last, rfl⟩
    · obtain ⟨rfl, last⟩ := List.append_inj' (typesValues.symm.trans split) rfl
      obtain rfl := List.singleton_inj.mp last
      refine ⟨?_, ?_, fun s member => ?_, fun v among => ?_⟩
      · rw [inst, result]
        exact Int.ne_of_gt h.positive
      · rw [inst, result, bound]
        exact Int.lt_succ _
      · rw [inst, result, same s member]
        exact Int.ne_of_lt (h.taken member)
      · obtain ⟨s, member, rfl⟩ := used v (inst ▸ among)
        exact ⟨s, member, by rw [same s member]⟩
    · have before : p.module.typesValues = front ++ r :: others := by
        rw [List.concat_eq_append, ← List.cons_append, ← List.append_assoc] at split
        exact List.append_inj_left' (typesValues.symm.trans split) rfl
      exact (h.inOrder front r others before).congr before same grows.module.bound_le
  · obtain rfl := List.mem_singleton.mp ((List.mem_append.mp member).resolve_left other)
    obtain ⟨s, listed, rfl⟩ := used v (inst ▸ among)
    exact ⟨_, rfl, by rw [inst, result]; exact h.taken listed⟩

end Program

/-! ### Tables of types -/

structure TypeTable.Listed (p : Program) (t : TypeTable) : Prop where
  listed : ∀ id, t.Holds id → p.ListsId (.int id)
  numbered : ∀ key entry, t.byType.get? key = some entry → entry.id ≠ 0
  found : ∀ v ty, t.type? v = some ty → (t.byType.get? ty.key).isSome = true

namespace TypeTable.Listed

variable {p q : Program} {t : TypeTable} {id : Id} {ty : Ty}

theorem later (h : t.Listed p) (appends : p.Appends q) : t.Listed q :=
  ⟨fun id held => appends.lists (h.listed id held), h.numbered, h.found⟩

theorem register (h : t.Listed p) (nonzero : id ≠ 0) (listed : p.ListsId (.int id)) : (t.register id ty).Listed p where
  listed other held := by
    rcases held with known | ⟨key, entry, found, rfl⟩
    · by_cases same : other = id
      · exact same ▸ listed
      · refine h.listed other (.inl ?_)
        simpa only [TypeTable.register, type?, Table.get?_set, Value.int.injEq, if_neg (Ne.symm same)] using known
    · rcases of_byType_register found with old | ⟨-, rfl⟩
      · exact h.listed _ (.inr ⟨key, entry, old, rfl⟩)
      · exact listed
  numbered := numbered_register h.numbered nonzero
  found v other known := by
    have kept {key : Ty} (found : (t.byType.get? key).isSome = true) :
        ((t.register id ty).byType.get? key).isSome = true := by
      obtain ⟨entry, found⟩ := Option.isSome_iff_exists.mp found
      exact Option.isSome_iff_exists.mpr ⟨entry, byType_register found⟩
    simp only [TypeTable.register, type?, Table.get?_set] at known
    split at known
    · obtain rfl := Option.some.inj known
      simp [TypeTable.register, Table.get?_setIfNew]
    · exact kept (h.found v other known)

theorem id_ne_zero (h : t.Listed p) {v : Value} (known : t.type? v = some ty) : t.id ty ≠ 0 := by
  obtain ⟨entry, found⟩ := Option.isSome_iff_exists.mp (h.found v ty known)
  rw [TypeTable.id, found]
  exact h.numbered _ _ found

end TypeTable.Listed

namespace Workspace

structure Ordered (w : Workspace) : Prop where
  program : w.program.Ordered
  types : ∀ t, w.facts.types = some t → t.Listed w.program

variable {w w' : Workspace} {lengths : Value → Prop} {texts targets : Set Value} {v : Value}

theorem Ordered.listed_of_holds (h : w.Ordered) {id : Id} (held : w.HoldsType id) : w.program.ListsId (.int id) := by
  obtain ⟨-, t, found, held⟩ := held
  exact (h.types t found).listed id held

theorem Ordered.findsTypes (h : w.Ordered) : w.FindsTypes :=
  fun t found _ _ known => (h.types t found).id_ne_zero known

/-- A fresh reading knows what is declared. -/
theorem Ordered.listed_of_read (h : w.Ordered) {t : TypeTable} (read : w.HasRead t) : t.Listed w.program := by
  obtain ⟨a, -, fold⟩ := read
  have start : TypeTable.Listed w.program {} := by
    refine ⟨fun id held => ?_, nofun, nofun⟩
    rcases held with known | ⟨_, _, found, -⟩
    · cases known
    · cases found
  refine except_foldlM_ok (fun _ t => t.Listed w.program) fold start fun done r rest t t' split held step => ?_
  obtain ⟨_, -, ty, -, -, rfl⟩ := TypeTable.read_ok_iff.mp step
  have member : r ∈ w.program.module.typesValues :=
    List.mem_of_mem_filter (split ▸ List.mem_append_right _ (List.mem_cons_self ..))
  obtain ⟨front, back, among⟩ := List.append_of_mem member
  exact held.register (h.program.inOrder front r back among).nonzero ⟨r, member, rfl⟩

def ordering (lengths : Value → Prop) : Contract Workspace where
  moves w w' := w.Ordered → (∀ v, lengths v → w.program.ListsId v) → w'.Ordered ∧ w.program.Appends w'.program
  exhausted _ := True
  refl _ h _ := ⟨h, .of_same rfl fun _ _ => rfl⟩
  trans first second h given := by
    obtain ⟨h', appends⟩ := first h given
    obtain ⟨h'', appends'⟩ := second h' fun v length => appends.lists (given v length)
    exact ⟨h'', appends.trans appends'⟩

/-- The declarations stay the same. -/
theorem Ordered.of_same (h : w.Ordered) (typesValues : w'.program.module.typesValues = w.program.module.typesValues)
    (same : ∀ r ∈ w.program.module.typesValues, w'.program.inst r = w.program.inst r)
    (grows : w.program.Grows w'.program) (types : w'.facts.types = w.facts.types) :
    w'.Ordered ∧ w.program.Appends w'.program :=
  have appends := Program.Appends.of_same typesValues same
  ⟨⟨h.program.of_grows grows typesValues same, fun t found => (h.types t (types ▸ found)).later appends⟩, appends⟩

theorem Ordered.declared (h : w.Ordered) {i : Instruction} (free : w.program.module.idBound < maxIdBound)
    (result : i.resultId = w.program.module.idBound) (used : ∀ v ∈ i.usedIds, w.program.ListsId v) :
    let w' := { w with program := w.program.nextBound.made i }.listed .typesValues ⟨w.program.instructions.size⟩
    w'.Ordered ∧ w.program.Appends w'.program := by
  obtain ⟨ordered, appends⟩ := h.program.declared free result used
  exact ⟨⟨ordered, fun t found => (h.types t found).later appends⟩, appends⟩

theorem Ordered.made (h : w.Ordered) (i : Instruction) :
    ∀ r ∈ w.program.module.typesValues, (w.program.made i).inst r = w.program.inst r :=
  fun r member => Program.inst_made_of_lt i (h.program.held r member)

theorem ordering_ask (ask : Ask lengths w w') : (ordering lengths).moves w w' := by
  intro h given
  have step : w.Step ∅ w' := ask.step
  have grows := step.program_extends.toGrows
  cases ask with
  | note note =>
    cases note with
    | find find => exact h.of_same (by rw [find.program_eq]) (fun _ _ => by rw [find.program_eq]) grows find.looks.2.1
    | annotate => exact h.of_same rfl (h.made _) grows rfl
  | constants => exact h.of_same rfl (fun _ _ => rfl) grows rfl
  | types _ read =>
    refine ⟨⟨h.program, fun t found => ?_⟩, .of_same rfl fun _ _ => rfl⟩
    obtain rfl := Option.some.inj found
    exact h.listed_of_read read
  | declare free result _ _ used =>
    refine h.declared free result fun v among => ?_
    rcases used v among with length | ⟨id, rfl, held⟩
    · exact given v length
    · exact h.listed_of_holds held
  | @register t id ty found nonzero declared _ =>
    refine ⟨⟨h.program, fun t' same => ?_⟩, .of_same rfl fun _ _ => rfl⟩
    obtain rfl := Option.some.inj same
    obtain ⟨r, member, -, result⟩ := declared
    exact (h.types t found).register nonzero ⟨r, member, by rw [result]⟩

theorem ordering_aside (aside : w.Aside texts targets w') : (ordering lengths).moves w w' := by
  intro h given
  have grows := aside.program_extends.toGrows
  cases aside with
  | find find => exact h.of_same (by rw [find.program_eq]) (fun _ _ => by rw [find.program_eq]) grows find.looks.2.1
  | name | capability | extension => exact h.of_same rfl (h.made _) grows rfl
  | @lengthen r operand late entry =>
    refine h.of_same rfl (fun s member => w.program.inst_withOperand_of_ne operand ?_) grows rfl
    rintro rfl
    exact h.program.apart late s entry member

theorem ordering_turn (turn : Turn lengths texts w w') : (ordering lengths).moves w w' := by
  cases turn with
  | ask ask => exact ordering_ask ask
  | aside aside => exact ordering_aside aside
  | global free result _ used =>
    intro h _
    refine h.declared free result fun v among => ?_
    obtain ⟨id, rfl, held⟩ := used v among
    exact h.listed_of_holds held

theorem ordering_take (free : w.program.module.idBound < maxIdBound) :
    (ordering lengths).moves w { w with program := w.program.nextBound } :=
  fun h _ => h.of_same rfl (fun _ _ => rfl) (Program.grows_nextBound free) rfl

theorem ordering_making (making : Making (Turn lengths texts) w w') : (ordering lengths).moves w w' := by
  cases making with
  | turn turned => exact ordering_turn turned
  | take free => exact ordering_take free
  | make i => exact fun h _ => h.of_same rfl (h.made i) (Program.grows_made _ i) rfl
  | record => exact fun h _ => h.of_same rfl (fun _ _ => rfl) (.refl _) rfl

theorem ordering_of_loses (lost : w.Loses w') : (ordering lengths).moves w w' := by
  cases lost with
  | id free => exact ordering_take free

theorem ordering_of_walk (h : Relation.ReflTransGen (Making (Turn lengths texts)) w w') :
    (ordering lengths).moves w w' :=
  moves_of_walk (A := (ordering lengths).account) (fun _ => ordering_making) h

theorem ordering_of_fails {e : Error} (h : (making (Turn lengths texts)).fails w e w') :
    (ordering lengths).moves w w' :=
  moves_of_fails (A := (ordering lengths).account) (fun _ => ordering_making) ordering_of_loses h

/-- Known types are found at any time. -/
theorem Ordered.sizes (h : w.Ordered) (given : ∀ v, lengths v → w.program.ListsId v) :
    Sizes (turns lengths texts) lengths w :=
  .inr fun _ move => (ordering_of_walk (walk_moves_mono Making.turn move) h given).1.findsTypes

end Workspace

/-! ### Buffers and runs -/

namespace Job

def ordering : Contract Job where
  moves j j' := (Workspace.ordering fun _ => False).moves j.workspace j'.workspace
  exhausted _ := True
  refl j := (Workspace.ordering _).refl j.workspace
  trans := (Workspace.ordering _).trans

theorem ordering_increment (j : Job) (atomic : Bool) (traceIndex : Int) :
    ordering.Keeps (increment atomic traceIndex) j fun _ _ => True := by
  by_cases start : j.workspace.Ordered
  · have sizes : Workspace.Sizes (Workspace.turns _ ∅) (fun _ => False) j.workspace := start.sizes fun _ => False.elim
    refine (turns_increment sizes atomic traceIndex).into ?_ ?_
    · exact fun j' move => Workspace.ordering_of_walk (workspace_of_turns move)
    · exact fun e j' failed => ⟨Workspace.ordering_of_fails (workspace_of_fails failed), fun _ => True.intro⟩
  -- Otherwise nothing is said about the change.
  · have any (j' : Job) : ordering.moves j j' := fun ordered => absurd ordered start
    refine Change.After.mono (.trivial _ _) (fun _ j' _ => ⟨any j', True.intro⟩) fun _ j' _ => ?_
    exact ⟨any j', fun _ => True.intro⟩

end Job

namespace Run

theorem carries_ordering : Carries Job.ordering := by
  refine .of_inserted (fun _ => True.intro) (fun j atomic traceIndex => ?_) fun j b gap refs h _ => ?_
  · exact Job.ordering_increment j atomic traceIndex
  · have module := @Program.module_inserted j.workspace.program b gap refs
    have typesValues := congrArg Module.typesValues module
    have inst : ∀ r ∈ j.workspace.program.module.typesValues,
        (j.workspace.program.inserted b gap refs).inst r = j.workspace.program.inst r :=
      fun r _ => Program.inst_inserted r
    have appends := Program.Appends.of_same typesValues inst
    refine ⟨⟨h.program.of_same typesValues inst (congrArg Module.entryPoints module) (congrArg Module.version module)
      (Int.le_of_eq (congrArg Module.idBound module.symm)) (Nat.le_of_eq Program.size_inserted.symm), ?_⟩, appends⟩
    exact fun t found => (h.types t found).later appends

end Run

/-! ### Sessions -/

namespace Session

/-- Whatever lengths of arrays the request gives are ids of declarations, and it tells the facts nothing else. -/
def Request.Lists (p : Program) : Request → Prop
  | .service wanted => ∀ v ∈ wanted.lengths, p.ListsId v
  | .register .. => False

instance (p : Program) (request : Request) : Decidable (request.Lists p) := by
  unfold Request.Lists
  split <;> infer_instance

def Call.Asks (s : Session) : Call → Prop
  | .draft _ => False
  | .request _ asked => asked.Lists s.program
  | .run _ onCount onLabels => (∀ count, onCount count = []) ∧ ∀ labels, onLabels labels = []
  | _ => True

def AllAsk : Session → List Call → Prop
  | _, [] => True
  | s, call :: rest => call.Asks s ∧ AllAsk (call.after s) rest

structure Ordered (s : Session) : Prop where
  program : s.program.Ordered
  types : ∀ n t, (s.facts n).types = some t → t.Listed s.program

variable {s t : Session} {n k : Nat}

theorem Ordered.workspace (h : s.Ordered) (n : Nat) : (s.workspace n).Ordered :=
  ⟨h.program, h.types n⟩

/-- What one workspace appends the others do not have to know of. -/
theorem Ordered.setWorkspace (h : s.Ordered) (n : Nat) {w : Workspace} (ordered : w.Ordered)
    (appends : s.program.Appends w.program) : (s.setWorkspace n w).Ordered where
  program := ordered.program
  types m t found := by
    change (Function.update s.facts n w.facts m).types = some t at found
    rw [Function.update_apply] at found
    split at found
    · exact ordered.types t found
    · exact (h.types m t found).later appends

def StaysOrdered (p : Program) (t : Session) : Prop :=
  t.Ordered ∧ p.Appends t.program

/-- A change of a part, whether or not it fails. -/
theorem staysOrdered_perform {τ : Type} {p : Program} {read : Session → τ} {write : Session → τ → Session}
    {change : Change τ (Option Id)}
    (h : After change (read s) (fun _ t => StaysOrdered p (write s t)) fun _ t => StaysOrdered p (write s t)) :
    StaysOrdered p (s.perform read write change) := by
  unfold perform
  unfold After at h
  split at h
  next ran =>
    rw [ran]
    exact ⟨⟨h.1.program, h.1.types⟩, h.2⟩
  next ran =>
    rw [ran]
    exact h

/-- A request in a workspace appends to the declarations. -/
theorem Request.ordering (request : Request) {w : Workspace} (h : w.Ordered) (given : request.Lists w.program) :
    After request.run w (fun _ w' => w'.Ordered ∧ w.program.Appends w'.program)
      fun _ w' => w'.Ordered ∧ w.program.Appends w'.program := by
  cases request with
  | register => exact given.elim
  | service wanted =>
    have sizes : Workspace.Sizes (Workspace.turns _ Set.univ) (· ∈ wanted.lengths) w := h.sizes given
    rcases wanted.run_cases sizes (fun _ => id) fun _ _ _ => Set.mem_univ _ with rfl | rfl | turned
    · exact .bind (.modify (.pure ⟨⟨h.program, nofun⟩, .of_same rfl fun _ _ => rfl⟩))
    · refine .bind (Workspace.after_takeId (fun _ => ⟨h, .of_same rfl fun _ _ => rfl⟩) fun free => .pure ?_)
      exact Workspace.ordering_take free h given
    · refine .mono (turned.walk_mono Workspace.Making.turn) (fun _ w' held => ?_) fun _ w' failed => ?_
      · exact Workspace.ordering_of_walk held.1 h given
      · exact Workspace.ordering_of_fails failed h given

theorem Provided.ordering (provided : Provided) {j : Job} (h : j.workspace.Ordered) : After provided.run j
    (fun _ j' => j'.workspace.Ordered ∧ j.workspace.program.Appends j'.workspace.program)
    fun _ j' => j'.workspace.Ordered ∧ j.workspace.program.Appends j'.workspace.program := by
  have sizes : Workspace.Sizes (Workspace.turns _ ∅) (fun _ => False) j.workspace := h.sizes fun _ => False.elim
  refine .mono (provided.turns sizes) (fun _ j' held => ?_) fun _ j' failed => ?_
  · have walked := Job.workspace_of_turns held.1
    exact Workspace.ordering_of_walk (Account.walk_moves_mono Workspace.Making.turn walked) h fun _ => False.elim
  · have failed := Job.workspace_of_fails failed
    exact Workspace.ordering_of_fails (Account.walk_fails_mono Workspace.Making.turn failed) h fun _ => False.elim

theorem afterAll_nil : Call.afterAll [] = id := by
  funext s
  unfold Call.afterAll
  rfl

/-- A run whose hooks only watch. -/
theorem staysOrdered_run (h : s.Ordered) (settings : Settings) :
    let r := finalState (Run.run settings { onCount := fun _ => during id, onLabels := fun _ => during id }
      { job := { workspace := { program := s.program } }, host := s })
    StaysOrdered s.program { r.host with program := r.program } := by
  let hooks : Hooks Session := { onCount := fun _ => during id, onLabels := fun _ => during id }
  let start : Run Session := { job := { workspace := { program := s.program } }, host := s }
  have quiet : hooks.Quiet := ⟨fun _ r => ⟨_, rfl⟩, fun _ r => ⟨_, rfl⟩⟩
  have ready : (Run.prepare settings start).job.workspace.Ordered := ⟨h.program, nofun⟩
  have ended {r : Run Session} {w : Workspace} (moved : w.Ordered ∧ s.program.Appends w.program)
      (program : r.program = w.program) (told : Run.Told hooks settings start r.host) :
      StaysOrdered s.program { r.host with program := r.program } := by
    -- The hooks leave the host as it is, so what its workspaces know was known before the run.
    have facts : r.host.facts = s.facts := by rcases told with same | ⟨labels, same⟩ <;> rw [same]; rfl
    refine ⟨⟨program ▸ moved.1.program, fun n t found => ?_⟩, program ▸ moved.2⟩
    have found : (s.facts n).types = some t := facts ▸ found
    exact program ▸ (h.types n t found).later moved.2
  suffices all : After (Run.run settings hooks) start
      (fun _ r => StaysOrdered s.program { r.host with program := r.program })
      (fun _ r => StaysOrdered s.program { r.host with program := r.program }) from all.finalState
  refine After.mono (Run.carries_ordering.run settings quiet) ?_ ?_
  · rintro _ r ⟨⟨j, moved, same⟩, told⟩
    have program : r.program = j.workspace.program := by rw [Run.program, same]
    exact ended (moved ready fun _ => False.elim) program told
  · rintro _ r ⟨moved, told⟩
    exact ended (moved ready fun _ => False.elim) rfl told

theorem Call.staysOrdered {call : Call} (h : s.Ordered) (asks : call.Asks s) :
    StaysOrdered s.program (call.after s) := by
  cases call with
  | draft => exact asks.elim
  | request n asked =>
    unfold Call.after
    exact staysOrdered_perform (.mono (asked.ordering (h.workspace n) asks)
      (fun _ w held => ⟨h.setWorkspace n held.1 held.2, held.2⟩)
      fun _ w held => ⟨h.setWorkspace n held.1 held.2, held.2⟩)
  | provide n k provided =>
    have job {j : Job} (held : j.workspace.Ordered ∧ s.program.Appends j.workspace.program) :
        StaysOrdered s.program (s.setJob n k j) := by
      have stays := h.setWorkspace n held.1 held.2
      exact ⟨⟨stays.program, stays.types⟩, held.2⟩
    unfold Call.after
    have ordered := provided.ordering (j := s.job n k) (h.workspace n)
    exact staysOrdered_perform (.mono ordered (fun _ _ => job) fun _ _ => job)
  | newBuffer k wide =>
    unfold Call.after
    exact ⟨⟨h.program, h.types⟩, .of_same rfl fun _ _ => rfl⟩
  | run settings onCount onLabels =>
    -- Only hooks that make no calls are allowed, so the session is what it was until the run ends.
    obtain ⟨onCount_nil, onLabels_nil⟩ := asks
    obtain rfl : onCount = fun _ => [] := funext onCount_nil
    obtain rfl : onLabels = fun _ => [] := funext onLabels_nil
    unfold Call.after
    simp only [afterAll_nil]
    exact staysOrdered_run h settings

theorem staysOrdered_of_calls (calls : List Call) (h : s.Ordered) (asks : AllAsk s calls) :
    StaysOrdered s.program (Call.afterAll calls s) := by
  induction calls generalizing s with
  | nil =>
    unfold Call.afterAll
    exact ⟨h, .of_same rfl fun _ _ => rfl⟩
  | cons call rest ih =>
    unfold Call.afterAll
    obtain ⟨first, appends⟩ := Call.staysOrdered h asks.1
    obtain ⟨last, appends'⟩ := ih first asks.2
    exact ⟨last, appends.trans appends'⟩

/-- Declarations that are in order stay so, whatever is asked for and however it ends: new ones come behind the old
ones, and their ids are larger than those that they use. -/
theorem inOrder_of_calls {p : Program} {calls : List Call} (positive : 1 ≤ p.module.idBound) (closed : p.Closed)
    (apart : p.DeclarationsApart) (inOrder : p.InOrder) (asks : AllAsk { program := p } calls) :
    (Call.afterAll calls { program := p }).program.InOrder ∧
      p.Appends (Call.afterAll calls { program := p }).program := by
  have start : Ordered { program := p } := by
    refine ⟨⟨fun r member => ?_, fun r member => ?_, apart, positive, inOrder⟩, fun _ _ => nofun⟩
    · exact closed r (Program.mem_allInsts_of_list .typesValues member)
    · exact closed r (Program.mem_allInsts_of_list .entryPoints member)
  obtain ⟨ordered, appends⟩ := staysOrdered_of_calls calls start asks
  exact ⟨ordered.program.inOrder, appends⟩

/-- An array with a constant as its length, a structure that is refused, a buffer, and a run. -/
def orderedCalls : List Call :=
  [.request 0 (.service (.uintConstant (.int 3) (.int 32))),
   .request 1 (.service (.type (.wrap (.array (.int 9)) (.uint 32) []))),
   .request 0 (.service (.type (.struct [.uint 64, .atom (.named .typeImage 7) []] [] []))), .provide 0 0 .buffer,
   .run {} (fun _ => []) (fun _ => [])]

theorem inOrder_of_calls_sample :
    let q := (Call.afterAll orderedCalls { program := Run.sample 8 }).program
    q.InOrder ∧ (Run.sample 8).Appends q ∧ q.module.typesValues.length = 14 := by
  -- The length is the constant that was declared by the first call.
  have length : ∀ v ∈ [Value.int 9], Program.ListsId
      ((Call.request 0 (.service (.uintConstant (.int 3) (.int 32)))).after { program := Run.sample 8 }).program v := by
    decide +kernel
  have asks : AllAsk { program := Run.sample 8 } orderedCalls :=
    ⟨nofun, length, fun _ => nofun, True.intro, ⟨fun _ => rfl, fun _ => rfl⟩, True.intro⟩
  have ordered := inOrder_of_calls (p := Run.sample 8) (by decide) (by decide) (by decide) (by decide) asks
  exact ⟨ordered.1, ordered.2, by decide +kernel⟩

/-- A module of a late version, whose only type is listed among the entry points as well. -/
def enteredType : Program where
  instructions := ⟨#[{ instruction := { opcode := .typeVoid, resultId := 1 } }]⟩
  module := { version := 66560, idBound := 2, entryPoints := [⟨0⟩], typesValues := [⟨0⟩] }

/-- A declaration that is an entry point as well gets the buffer as an operand, which is declared behind it. -/
theorem not_inOrder_of_entered : ¬∀ (p : Program) (calls : List Call), 1 ≤ p.module.idBound → p.Closed → p.InOrder →
    AllAsk { program := p } calls → (Call.afterAll calls { program := p }).program.InOrder := by
  intro always
  have ordered := always enteredType [.provide 0 0 .buffer] (by decide) (by decide) (by decide)
    ⟨True.intro, True.intro⟩
  exact absurd ordered (by decide +kernel)

end Session

end BlockTally
