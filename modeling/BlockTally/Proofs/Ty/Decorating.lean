import BlockTally.Facts.Tables
import BlockTally.Proofs.Ty.Sorting
import BlockTally.Proofs.Ty.Spelling

/-! Decorating a type step by step.

Every step sorts the decorations anew and drops repetitions. So what comes of many steps is one sorting of the old
decorations and the new ones: it depends on the set of steps, not on their order or on how often each is made.
-/

set_option autoImplicit false

namespace BlockTally

namespace Decoration

/-- What comes of old decorations when new ones are added, all sorted at once. -/
def added (new old : List Decoration) : Except Error (List Decoration) :=
  if new = [] then .ok old else sortSet (new ++ old)

variable {new new' old ds : List Decoration}

theorem allComparable_of_subset (included : ds ⊆ new) (h : allComparable new = true) : allComparable ds = true := by
  simp only [allComparable, List.all_eq_true] at h ⊢
  exact fun d member e member' => h d (included member) e (included member')

theorem sortSet_ok (h : allComparable ds = true) : sortSet ds = .ok (sortedDistinct ds) :=
  if_pos h

theorem sortSet_error (h : ¬allComparable ds = true) : sortSet ds = .error (.fault .incomparable) :=
  if_neg h

theorem sort_ok_iff {es : List Decoration} : sort ds = .ok es ↔ allComparable ds = true ∧ sorted ds = es := by
  by_cases comparable : allComparable ds = true
  · rw [sort, if_pos comparable, Except.ok.injEq]
    exact (and_iff_right comparable).symm
  · rw [sort, if_neg comparable]
    exact iff_of_false nofun fun both => comparable both.1

theorem added_nil : added [] old = .ok old :=
  if_pos rfl

theorem added_of_ne_nil (some : new ≠ []) : added new old = sortSet (new ++ old) :=
  if_neg some

theorem added_to_nil (new : List Decoration) : added new [] = sortSet new := by
  cases new with
  | nil => rfl
  | cons d rest => rw [added_of_ne_nil (List.cons_ne_nil d rest), List.append_nil]

theorem added_singleton (d : Decoration) : added [d] old = sortSet (d :: old) :=
  added_of_ne_nil (List.cons_ne_nil d [])

/-- There is only one reason to fail. -/
theorem added_result (new old : List Decoration) :
    (∃ ds, added new old = .ok ds) ∨ added new old = .error (.fault .incomparable) := by
  by_cases none : new = []
  · exact .inl ⟨old, none ▸ added_nil⟩
  · rw [added_of_ne_nil none]
    by_cases comparable : allComparable (new ++ old) = true
    · exact .inl ⟨_, sortSet_ok comparable⟩
    · exact .inr (sortSet_error comparable)

theorem mem_added (h : added new old = .ok ds) {d : Decoration} : d ∈ ds ↔ d ∈ new ∨ d ∈ old := by
  by_cases none : new = []
  · subst none
    obtain rfl := Except.ok.inj (added_nil.symm.trans h)
    simp only [List.not_mem_nil, false_or]
  · rw [added_of_ne_nil none] at h
    by_cases comparable : allComparable (new ++ old) = true
    · obtain rfl := Except.ok.inj ((sortSet_ok comparable).symm.trans h)
      exact mem_sortedDistinct.trans List.mem_append
    · cases (sortSet_error comparable).symm.trans h

/-- To sort in between makes no difference. -/
theorem added_cons (d : Decoration) (new old : List Decoration) :
    (do added new (← added [d] old)) = added (d :: new) old := by
  rw [added_singleton, added_of_ne_nil (List.cons_ne_nil d new)]
  by_cases comparable : allComparable (d :: old) = true
  · rw [sortSet_ok comparable]
    change added new (sortedDistinct (d :: old)) = _
    by_cases none : new = []
    · rw [none, added_nil]
      exact (sortSet_ok comparable).symm
    · rw [added_of_ne_nil none]
      refine sortSet_congr fun e => ?_
      simp only [List.mem_append, List.mem_cons, mem_sortedDistinct]
      exact or_left_comm.trans or_assoc.symm
  · have incomparable : ¬allComparable (d :: new ++ old) = true := fun all =>
      comparable (allComparable_of_subset (List.cons_subset_cons d (List.subset_append_right new old)) all)
    rw [sortSet_error comparable, sortSet_error incomparable]
    rfl

theorem added_comm {α : Type} (new old new' old' : List Decoration)
    (result : List Decoration → List Decoration → Except Error α) :
    (do let ds ← added new old; let ds' ← added new' old'; result ds ds') =
      (do let ds' ← added new' old'; let ds ← added new old; result ds ds') := by
  rcases added_result new old with ⟨ds, h⟩ | h <;> rcases added_result new' old' with ⟨ds', h'⟩ | h' <;>
    rw [h, h'] <;> rfl

end Decoration

namespace Ty

variable (ty : Ty) (ds mds : List Decoration)

@[simp] theorem decorations_setDecorations : (ty.setDecorations ds).decorations = ds := by
  cases ty <;> rfl

@[simp] theorem memberDecorations_setDecorations :
    (ty.setDecorations ds).memberDecorations = ty.memberDecorations := by
  cases ty <;> rfl

@[simp] theorem decorations_setMemberDecorations : (ty.setMemberDecorations mds).decorations = ty.decorations := by
  cases ty <;> rfl

@[simp] theorem setDecorations_setDecorations (ds' : List Decoration) :
    (ty.setDecorations ds).setDecorations ds' = ty.setDecorations ds' := by
  cases ty <;> rfl

@[simp] theorem setMemberDecorations_setMemberDecorations (mds' : List Decoration) :
    (ty.setMemberDecorations mds).setMemberDecorations mds' = ty.setMemberDecorations mds' := by
  cases ty <;> rfl

/-- The two kinds of decorations do not get in each other's way. -/
theorem setDecorations_setMemberDecorations :
    (ty.setMemberDecorations mds).setDecorations ds = (ty.setDecorations ds).setMemberDecorations mds := by
  cases ty <;> rfl

@[simp] theorem setDecorations_decorations : ty.setDecorations ty.decorations = ty := by
  cases ty <;> rfl

@[simp] theorem setMemberDecorations_memberDecorations : ty.setMemberDecorations ty.memberDecorations = ty := by
  cases ty <;> rfl

@[simp] theorem decorations_key : ty.key.decorations = ty.decorations := by
  cases ty <;> simp only [key] <;> rfl

def hasMembers : Ty → Bool
  | .struct .. => true
  | _ => false

@[simp] theorem hasMembers_setDecorations : (ty.setDecorations ds).hasMembers = ty.hasMembers := by
  cases ty <;> rfl

@[simp] theorem hasMembers_setMemberDecorations : (ty.setMemberDecorations mds).hasMembers = ty.hasMembers := by
  cases ty <;> rfl

theorem memberDecorations_setMemberDecorations (h : ty.hasMembers = true) :
    (ty.setMemberDecorations mds).memberDecorations = mds := by
  cases ty with
  | struct => rfl
  | atom | wrap | function => cases h

theorem memberDecorations_of_not_hasMembers (h : ty.hasMembers = false) : ty.memberDecorations = [] := by
  cases ty with
  | struct => cases h
  | atom | wrap | function => rfl

/-! ### Steps -/

inductive Step where
  | own (number : Int) (values : List Int)
  | member (place number : Int) (values : List Int)
  deriving DecidableEq, Repr

namespace Step

def own? : Step → Option Decoration
  | own number values => some (.int number :: values.map .int)
  | member .. => none

def member? : Step → Option Decoration
  | own .. => none
  | member place number values => some (.int place :: .int number :: values.map .int)

def run (ty : Ty) : Step → Except Error Ty
  | own number values => ty.withDecoration (.int number :: values.map .int)
  | member place number values => ty.withMemberDecoration (.int place :: .int number :: values.map .int)

theorem run_own {number : Int} {values : List Int} {d : Decoration} (h : (own number values).own? = some d) :
    (own number values).run ty = do return ty.setDecorations (← Decoration.added [d] ty.decorations) := by
  obtain rfl := Option.some.inj h
  rw [Decoration.added_singleton]
  rfl

variable {ty} in
theorem run_member {place number : Int} {values : List Int} {d : Decoration} (members : ty.hasMembers = true)
    (h : (member place number values).member? = some d) :
    (member place number values).run ty =
      do return ty.setMemberDecorations (← Decoration.added [d] ty.memberDecorations) := by
  obtain rfl := Option.some.inj h
  rw [Decoration.added_singleton]
  cases ty with
  | struct => rfl
  | atom | wrap | function => cases members

/-- What steps of one kind can give is given by a list of steps of that kind. -/
theorem exists_steps_of_kind {given other : Step → Option Decoration} {ds : List Decoration}
    (apart : ∀ step d, given step = some d → other step = none)
    (possible : ∀ d ∈ ds, ∃ step : Step, given step = some d) :
    ∃ steps : List Step, steps.filterMap given = ds ∧ steps.filterMap other = [] := by
  induction ds with
  | nil => exact ⟨[], rfl, rfl⟩
  | cons d rest ih =>
    obtain ⟨⟨step, gives⟩, later⟩ := List.forall_mem_cons.mp possible
    obtain ⟨steps, listed, none⟩ := ih later
    refine ⟨step :: steps, ?_, ?_⟩
    · rw [List.filterMap_cons_some gives, listed]
    · rw [List.filterMap_cons_none (apart step d gives), none]

/-- Every list of decorations that steps can give is given by a list of steps. -/
theorem exists_steps {ds mds : List Decoration} (own : ∀ d ∈ ds, ∃ step : Step, step.own? = some d)
    (members : ∀ d ∈ mds, ∃ step : Step, step.member? = some d) :
    ∃ steps : List Step, steps.filterMap own? = ds ∧ steps.filterMap member? = mds := by
  have apart (step : Step) (d : Decoration) : step.own? = some d → step.member? = none := by
    cases step <;> simp [own?, member?]
  have apart' (step : Step) (d : Decoration) : step.member? = some d → step.own? = none := by
    cases step <;> simp [own?, member?]
  obtain ⟨first, own', none⟩ := exists_steps_of_kind apart own
  obtain ⟨second, members', none'⟩ := exists_steps_of_kind apart' members
  refine ⟨first ++ second, ?_, ?_⟩
  · rw [List.filterMap_append, own', none', List.append_nil]
  · rw [List.filterMap_append, none, members', List.nil_append]

end Step

def withSteps (steps : List Step) : Except Error Ty :=
  steps.foldlM Step.run ty

def Takes (steps : List Step) : Prop :=
  ty.hasMembers = false → steps.filterMap Step.member? = []

variable {ty} {steps steps' : List Step}

/-- The decorations of both kinds are sorted in, each kind at once. -/
theorem withSteps_eq (taken : ty.Takes steps) :
    ty.withSteps steps = do
      let ds ← Decoration.added (steps.filterMap Step.own?) ty.decorations
      let mds ← Decoration.added (steps.filterMap Step.member?) ty.memberDecorations
      return (ty.setDecorations ds).setMemberDecorations mds := by
  -- By induction on the steps: each sorts in one decoration of its kind and leaves those of the other kind alone.
  induction steps generalizing ty with
  | nil =>
    simp only [List.filterMap_nil, Decoration.added_nil]
    exact congrArg Except.ok (by rw [setDecorations_decorations, setMemberDecorations_memberDecorations])
  | cons step rest ih =>
    change (step.run ty >>= fun ty' => ty'.withSteps rest) = _
    cases step with
    | own number values =>
      have taken' (ds : List Decoration) : (ty.setDecorations ds).Takes rest := fun none =>
        taken ((hasMembers_setDecorations ty ds).symm.trans none)
      rw [Step.run_own ty rfl]
      simp only [List.filterMap_cons, Step.own?, Step.member?, ← Decoration.added_cons _ (rest.filterMap Step.own?),
        bind_assoc, pure_bind, ih (taken' _), decorations_setDecorations, memberDecorations_setDecorations,
        setDecorations_setDecorations]
    | member place number values =>
      have members : ty.hasMembers = true := by
        by_contra none
        cases taken (Bool.eq_false_of_not_eq_true none)
      have taken' (mds : List Decoration) : (ty.setMemberDecorations mds).Takes rest := fun none =>
        absurd (members.symm.trans ((hasMembers_setMemberDecorations ty mds).symm.trans none)) nofun
      rw [Step.run_member members rfl]
      simp only [List.filterMap_cons, Step.own?, Step.member?, ← Decoration.added_cons _ (rest.filterMap Step.member?),
        bind_assoc, pure_bind, ih (taken' _), decorations_setMemberDecorations,
        memberDecorations_setMemberDecorations _ _ members, setDecorations_setMemberDecorations,
        setMemberDecorations_setMemberDecorations]
      exact Decoration.added_comm ..

theorem withSteps_ok {ty' : Ty} (taken : ty.Takes steps) (h : ty.withSteps steps = .ok ty') :
    ∃ ds mds, Decoration.added (steps.filterMap Step.own?) ty.decorations = .ok ds ∧
      Decoration.added (steps.filterMap Step.member?) ty.memberDecorations = .ok mds ∧
      ty' = (ty.setDecorations ds).setMemberDecorations mds := by
  simp only [withSteps_eq taken, except_bind_ok_iff] at h
  obtain ⟨ds, own, mds, members, same⟩ := h
  exact ⟨ds, mds, own, members, (Except.ok.inj same).symm⟩

/-- A type is the other one but for decorations, and its decorations are those of the other one and of the steps. -/
structure Grown (ty : Ty) (steps : List Step) (ty' : Ty) : Prop where
  base : (ty'.setDecorations ty.decorations).setMemberDecorations ty.memberDecorations = ty
  own : ∀ d, d ∈ ty'.decorations ↔ d ∈ ty.decorations ∨ ∃ step ∈ steps, step.own? = some d
  members : ∀ d, d ∈ ty'.memberDecorations ↔ d ∈ ty.memberDecorations ∨ ∃ step ∈ steps, step.member? = some d

theorem grown {ty' : Ty} (taken : ty.Takes steps) (h : ty.withSteps steps = .ok ty') : ty.Grown steps ty' := by
  obtain ⟨ds, mds, own, members, rfl⟩ := withSteps_ok taken h
  refine ⟨?_, fun d => ?_, fun d => ?_⟩
  · rw [setDecorations_setMemberDecorations, setDecorations_setDecorations, setMemberDecorations_setMemberDecorations,
      setDecorations_decorations, setMemberDecorations_memberDecorations]
  · rw [decorations_setMemberDecorations, decorations_setDecorations, Decoration.mem_added own, List.mem_filterMap]
    exact or_comm
  · rw [← List.mem_filterMap, or_comm, ← Decoration.mem_added members]
    cases kind : ty.hasMembers with
    | true => rw [memberDecorations_setMemberDecorations _ _ ((hasMembers_setDecorations ty ds).trans kind)]
    | false =>
      rw [taken kind, Decoration.added_nil, memberDecorations_of_not_hasMembers ty kind] at members
      obtain rfl := Except.ok.inj members
      rw [memberDecorations_of_not_hasMembers]
      rw [hasMembers_setMemberDecorations, hasMembers_setDecorations, kind]

def bare (ty : Ty) : Ty :=
  (ty.setDecorations []).setMemberDecorations []

theorem decorations_bare (ty : Ty) : ty.bare.decorations = [] := by
  rw [bare, decorations_setMemberDecorations, decorations_setDecorations]

theorem memberDecorations_bare (ty : Ty) : ty.bare.memberDecorations = [] := by
  cases ty <;> rfl

theorem hasMembers_bare (ty : Ty) : ty.bare.hasMembers = ty.hasMembers := by
  rw [bare, hasMembers_setMemberDecorations, hasMembers_setDecorations]

theorem set_bare (ty : Ty) (ds mds : List Decoration) :
    (ty.bare.setDecorations ds).setMemberDecorations mds = (ty.setDecorations ds).setMemberDecorations mds := by
  rw [bare, setDecorations_setMemberDecorations, setMemberDecorations_setMemberDecorations,
    setDecorations_setDecorations]

theorem setMemberDecorations_of_not_hasMembers (h : ty.hasMembers = false) (mds : List Decoration) :
    ty.setMemberDecorations mds = ty := by
  cases ty with
  | struct => cases h
  | atom | wrap | function => rfl

theorem set_eq_iff {ds mds : List Decoration} : (ty.setDecorations ds).setMemberDecorations mds = ty ↔
    ds = ty.decorations ∧ (ty.hasMembers = true → mds = ty.memberDecorations) := by
  cases ty <;> simp [setDecorations, setMemberDecorations, decorations, memberDecorations, hasMembers, and_comm]

/-- Types of the same form and components differ in their decorations only, and so do their keys. -/
theorem key_set_eq_iff {ds mds : List Decoration} : ((ty.setDecorations ds).setMemberDecorations mds).key = ty.key ↔
    (ty.setDecorations ds).setMemberDecorations mds = ty := by
  rw [set_eq_iff]
  cases ty <;>
    simp [setDecorations, setMemberDecorations, decorations, memberDecorations, hasMembers, key, and_comm]

theorem decorated_ok {plain : Ty} {own members : List Decoration} (h : plain.decorated own members = .ok ty) :
    Decoration.allComparable own = true ∧ (ty.hasMembers = true → Decoration.allComparable members = true) ∧
      ty = (plain.setDecorations (Decoration.sorted own)).setMemberDecorations (Decoration.sorted members) := by
  obtain ⟨ds, first, rest⟩ := except_bind_ok_iff.mp h
  obtain ⟨comparable, rfl⟩ := Decoration.sort_ok_iff.mp first
  cases plain with
  | struct =>
    obtain ⟨mds, second, last⟩ := except_bind_ok_iff.mp rest
    obtain ⟨comparable', rfl⟩ := Decoration.sort_ok_iff.mp second
    exact ⟨comparable, fun _ => comparable', (Except.ok.inj last).symm⟩
  | atom | wrap | function =>
    obtain rfl := Except.ok.inj rest
    exact ⟨comparable, nofun, rfl⟩

/-- Decorations that are given all at once keep their repetitions, those that are given step by step do not. Nothing
else tells the two types apart. -/
theorem withSteps_bare {plain : Ty} {own members : List Decoration} (h : plain.decorated own members = .ok ty)
    (same : ∀ d, d ∈ steps.filterMap Step.own? ↔ d ∈ own)
    (same' : ∀ d, d ∈ steps.filterMap Step.member? ↔ ty.hasMembers = true ∧ d ∈ members) :
    ∃ ty', ty.bare.withSteps steps = .ok ty' ∧
      (ty' = ty ↔ own.Nodup ∧ (ty.hasMembers = true → members.Nodup)) ∧ (ty'.key = ty.key ↔ ty' = ty) := by
  obtain ⟨comparable, comparable', form⟩ := decorated_ok h
  have taken : ty.bare.Takes steps := fun none => List.eq_nil_iff_forall_not_mem.mpr fun d listed => by
    rw [hasMembers_bare] at none
    exact absurd (none.symm.trans ((same' d).mp listed).1) nofun
  let ty' :=
    (ty.setDecorations (Decoration.sortedDistinct own)).setMemberDecorations (Decoration.sortedDistinct members)
  have run : ty.bare.withSteps steps = .ok ty' := by
    rw [withSteps_eq taken, decorations_bare, memberDecorations_bare, Decoration.added_to_nil, Decoration.added_to_nil,
      Decoration.sortSet_congr same, Decoration.sortSet_ok comparable]
    cases kind : ty.hasMembers with
    | true =>
      rw [Decoration.sortSet_congr fun d => (same' d).trans (and_iff_right kind),
        Decoration.sortSet_ok (comparable' kind)]
      exact congrArg Except.ok (set_bare ..)
    | false =>
      rw [taken ((hasMembers_bare ty).trans kind)]
      refine congrArg Except.ok ((set_bare ..).trans ?_)
      have kind' : (ty.setDecorations (Decoration.sortedDistinct own)).hasMembers = false := by
        rw [hasMembers_setDecorations, kind]
      rw [setMemberDecorations_of_not_hasMembers kind', ← setMemberDecorations_of_not_hasMembers kind']
  -- What was given all at once is sorted, with its repetitions.
  have listed : ty.decorations = Decoration.sorted own := by
    rw [form, decorations_setMemberDecorations, decorations_setDecorations]
  have listed' (kind : ty.hasMembers = true) : ty.memberDecorations = Decoration.sorted members := by
    rw [form] at kind ⊢
    rw [hasMembers_setMemberDecorations] at kind
    exact memberDecorations_setMemberDecorations _ _ kind
  refine ⟨ty', run, ?_, key_set_eq_iff⟩
  rw [set_eq_iff, listed, eq_comm, Decoration.sorted_eq_sortedDistinct_iff]
  refine and_congr_right fun _ => forall_congr' fun kind => ?_
  rw [listed' kind, eq_comm, Decoration.sorted_eq_sortedDistinct_iff]

end Ty

end BlockTally
