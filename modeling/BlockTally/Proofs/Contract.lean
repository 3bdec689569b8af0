import BlockTally.Change
import BlockTally.Proofs.Checks
import Mathlib.Logic.Relation

/-! Contracts of changes.

A contract says how the state may move and in which states a change may fail for want of ids. The moves
are closed under sequence, so that a change keeps a contract as soon as its steps do. A change that fails
has moved as well: what was changed before the failure stays.
-/

set_option autoImplicit false

namespace BlockTally

variable {σ τ α β : Type}

namespace Change

/-- What holds after a run from a state: `good` of an answer and its state, `bad` of an error and its state. -/
def After (change : Change σ α) (s : σ) (good : α → σ → Prop) (bad : Error → σ → Prop) : Prop :=
  match change s with
  | .ok a t => good a t
  | .error e t => bad e t

variable {change : Change σ α} {s : σ} {good : α → σ → Prop} {bad : Error → σ → Prop}

theorem After.mono {good' : α → σ → Prop} {bad' : Error → σ → Prop} (h : After change s good bad)
    (answer : ∀ a t, good a t → good' a t) (error : ∀ e t, bad e t → bad' e t) :
    After change s good' bad' := by
  unfold After at *
  split at h
  · exact answer _ _ h
  · exact error _ _ h

/-- A run ends. -/
theorem After.trivial (change : Change σ α) (s : σ) : After change s (fun _ _ => True) fun _ _ => True := by
  unfold After
  split <;> exact True.intro

theorem After.bind {next : α → Change σ β} {good' : β → σ → Prop}
    (h : After change s (fun a t => After (next a) t good' bad) bad) :
    After (change >>= next) s good' bad := by
  simp only [After, Bind.bind, EStateM.bind] at *
  split at h <;> simp_all

/-- Nothing is said of errors. -/
theorem After.andThen {next : α → Change σ β} {last : β → σ → Prop} (h : After change s good fun _ _ => True)
    (rest : ∀ a t, good a t → After (next a) t last fun _ _ => True) :
    After (change >>= next) s last fun _ _ => True :=
  After.bind (After.mono h rest fun _ _ _ => True.intro)

/-- What is only known under an assumption. -/
theorem After.given {assumption : Prop} (h : assumption → After change s good fun _ _ => True) :
    After change s (fun a t => assumption → good a t) fun _ _ => True := by
  by_cases assumed : assumption
  · exact After.mono (h assumed) (fun _ _ held _ => held) fun _ _ => id
  · exact After.mono (.trivial change s) (fun _ _ _ holds => absurd holds assumed) fun _ _ => id

theorem After.pure {a : α} (h : good a s) : After (Pure.pure a : Change σ α) s good bad := h

theorem After.discard {good : Unit → σ → Prop} (h : After change s (fun _ => good ()) bad) :
    After (discard change) s good bad := by
  change After (change >>= fun _ => Pure.pure ()) s good bad
  exact After.bind h

theorem After.throw {e : Error} (h : bad e s) : After (throw e : Change σ α) s good bad := h

theorem After.get {good : σ → σ → Prop} (h : good s s) : After (get : Change σ σ) s good bad := h

theorem After.bind_get {next : σ → Change σ β} {good : β → σ → Prop} (h : After (next s) s good bad) :
    After (MonadState.get >>= next) s good bad := h

theorem After.modify {f : σ → σ} {good : Unit → σ → Prop} (h : good () (f s)) :
    After (modify f : Change σ Unit) s good bad := h

/-- A check changes nothing. -/
theorem After.check {result : Except Error α} (answer : ∀ a, result = .ok a → good a s)
    (error : ∀ e, result = .error e → bad e s) : After (liftM result : Change σ α) s good bad := by
  cases result with
  | ok a => exact answer a rfl
  | error e => exact error e rfl

/-- A change of a part, seen from the whole. -/
theorem After.within {read : σ → τ} {write : σ → τ → σ} {change : Change τ α}
    (h : After change (read s) (fun a t => good a (write s t)) fun e t => bad e (write s t)) :
    After (Change.within read write change) s good bad := by
  simp only [After, Change.within] at *
  split at h <;> simp_all

theorem After.ran {a : α} {t : σ} (done : change s = .ok a t) (h : good a t) : After change s good bad := by
  simpa only [After, done] using h

theorem After.of_ok {a : α} {t : σ} (h : After change s good bad) (done : change s = .ok a t) :
    good a t := by
  simpa only [After, done] using h

theorem After.of_error {e : Error} {t : σ} (h : After change s good bad) (failed : change s = .error e t) :
    bad e t := by
  simpa only [After, failed] using h

theorem bind_of_ok {next : α → Change σ β} {a : α} {t : σ} (done : change s = .ok a t) :
    (change >>= next) s = next a t := by
  simp only [Bind.bind, EStateM.bind, done]

theorem bind_of_error {next : α → Change σ β} {e : Error} {t : σ} (failed : change s = .error e t) :
    (change >>= next) s = .error e t := by
  simp only [Bind.bind, EStateM.bind, failed]

theorem bind_congr_of_eq {next : α → Change σ β} {t : σ} (same : change s = change t) :
    (change >>= next) s = (change >>= next) t := by
  simp only [Bind.bind, EStateM.bind, same]

theorem within_congr_of_eq {read : σ → τ} {write : σ → τ → σ} {change : Change τ α} {t : σ}
    (same : change (read s) = change (read t)) (written : write s = write t) :
    Change.within read write change s = Change.within read write change t := by
  unfold Change.within
  rw [same, written]

theorem get_bind {next : σ → Change σ β} : (get >>= next) s = next s s := rfl

theorem check_bind {result : Except Error α} {next : α → Change σ β} {a : α} (passed : result = .ok a) :
    ((liftM result : Change σ α) >>= next) s = next a s := by
  rw [passed]
  rfl

/-- Two accounts of one run. -/
theorem After.and {good' : α → σ → Prop} {bad' : Error → σ → Prop} (first : After change s good bad)
    (second : After change s good' bad') :
    After change s (fun a t => good a t ∧ good' a t) fun e t => bad e t ∧ bad' e t := by
  unfold After at *
  split at first <;> simp_all

/-- What is known of errors only under an assumption. -/
theorem After.assuming {assumption : Prop} (answer : After change s good fun _ _ => True)
    (error : assumption → After change s (fun _ _ => True) bad) :
    After change s good fun e t => assumption → bad e t := by
  by_cases assumed : assumption
  · exact After.mono (answer.and (error assumed)) (fun _ _ held => held.1) fun _ _ held _ => held.2
  · exact After.mono answer (fun _ _ held => held) fun _ _ _ holds => absurd holds assumed

/-- What holds after a run in any case holds of the final state. -/
theorem After.finalState {post : σ → Prop} (h : After change s (fun _ => post) fun _ => post) :
    post (finalState (change s)) := by
  unfold After at h
  split at h <;> simp_all [Change.finalState]

def answer? : EStateM.Result Error σ α → Option α
  | .ok a _ => some a
  | .error _ _ => none

def error? : EStateM.Result Error σ α → Option Error
  | .ok _ _ => none
  | .error e _ => some e

theorem eq_ok_of_answer {result : EStateM.Result Error σ α} {a : α} (answered : answer? result = some a) :
    result = .ok a (finalState result) := by
  cases result with
  | ok b t =>
    obtain rfl := Option.some.inj answered
    rfl
  | error e t => cases answered

theorem eq_error_of_error {result : EStateM.Result Error σ α} {e : Error} (failed : error? result = some e) :
    result = .error e (finalState result) := by
  cases result with
  | ok a t => cases failed
  | error e' t =>
    obtain rfl := Option.some.inj failed
    rfl

/-- What each round keeps, a loop keeps. -/
theorem After.forM {f : α → Change σ Unit} {entries : List α} {inv : σ → Prop} {bad : Error → σ → Prop} {s : σ}
    (start : inv s) (each : ∀ a ∈ entries, ∀ t, inv t → After (f a) t (fun _ => inv) bad) :
    After (entries.forM f) s (fun _ => inv) bad := by
  induction entries generalizing s with
  | nil => exact After.pure start
  | cons a rest ih =>
    rw [List.forall_mem_cons] at each
    exact After.bind (After.mono (each.1 s start) (fun _ t held => ih held each.2) fun _ _ failed => failed)

/-- What a loop keeps: `inv` speaks of the entries that are done. -/
theorem After.foldlM {f : β → α → Change σ β} {entries : List α} (inv : List α → β → σ → Prop)
    {bad : Error → σ → Prop} {b : β} {s : σ} (start : inv [] b s)
    (each : ∀ done a rest b t, entries = done ++ a :: rest → inv done b t →
      After (f b a) t (inv (done ++ [a])) bad) :
    After (entries.foldlM f b) s (inv entries) bad := by
  -- The induction is on what is left, for any part that is done.
  have from_here (done rest : List α) (b : β) (t : σ) (split : entries = done ++ rest) (held : inv done b t) :
      After (rest.foldlM f b) t (inv entries) bad := by
    induction rest generalizing done b t with
    | nil =>
      rw [List.append_nil] at split
      exact After.pure (split ▸ held)
    | cons a rest ih =>
      rw [List.foldlM_cons]
      refine After.bind (After.mono (each done a rest b t split held) (fun b' u after => ?_) fun _ _ h => h)
      exact ih (done ++ [a]) b' u (by simpa using split) after
  exact from_here [] entries b s rfl start

end Change

/-- How changes may move the state and how they may fail. -/
structure Account (σ : Type) where
  moves : σ → σ → Prop
  fails : σ → Error → σ → Prop
  refl : ∀ s, moves s s
  trans : ∀ {s t u}, moves s t → moves t u → moves s u
  later : ∀ {s t u e}, moves s t → fails t e u → fails s e u
  /-- A check may fail. -/
  refuses : ∀ {s e}, e ≠ .idsExhausted → fails s e s

namespace Account

open Change

variable (A : Account σ)

/-- From a state, a change moves and fails only as the account says, and its answer is as described. -/
def Keeps (change : Change σ α) (s : σ) (post : α → σ → Prop) : Prop :=
  After change s (fun a t => A.moves s t ∧ post a t) (A.fails s)

def Lenient : Prop :=
  ∀ s e, A.fails s e s

variable {A} {change : Change σ α} {s t : σ} {post : α → σ → Prop}

theorem Keeps.mono {post' : α → σ → Prop} (h : A.Keeps change s post)
    (weaker : ∀ a t, A.moves s t → post a t → post' a t) : A.Keeps change s post' :=
  After.mono h (fun a t held => ⟨held.1, weaker a t held.1 held.2⟩) fun _ _ held => held

/-- The answer comes with a move. -/
theorem Keeps.with_move (h : A.Keeps change s post) : A.Keeps change s fun a t => A.moves s t ∧ post a t :=
  h.mono fun _ _ move held => ⟨move, held⟩

theorem Keeps.trivial (h : A.Keeps change s post) : A.Keeps change s fun _ _ => True :=
  h.mono fun _ _ _ _ => True.intro

/-- What is kept from a state is kept from every earlier one. -/
theorem Keeps.after_move (h : A.Keeps change t post) (first : A.moves s t) :
    After change t (fun a u => A.moves s u ∧ post a u) (A.fails s) :=
  After.mono h (fun _ _ held => ⟨A.trans first held.1, held.2⟩) fun _ _ held => A.later first held

theorem Keeps.bind {next : α → Change σ β} {last : β → σ → Prop} (h : A.Keeps change s post)
    (rest : ∀ a t, A.moves s t → post a t → A.Keeps (next a) t last) : A.Keeps (change >>= next) s last :=
  After.bind (After.mono h (fun a t held => (rest a t held.1 held.2).after_move held.1) fun _ _ held => held)

/-- Nothing has to be known of the first change. -/
theorem Keeps.seq {next : α → Change σ β} {last : β → σ → Prop} (h : A.Keeps change s post)
    (rest : ∀ a t, A.moves s t → A.Keeps (next a) t last) : A.Keeps (change >>= next) s last :=
  h.bind fun a t move _ => rest a t move

theorem Keeps.pure {a : α} (h : post a s) : A.Keeps (Pure.pure a : Change σ α) s post :=
  After.pure ⟨A.refl s, h⟩

theorem Keeps.discard (h : A.Keeps change s post) : A.Keeps (discard change) s fun _ _ => True :=
  h.bind fun _ _ _ _ => Keeps.pure True.intro

theorem Keeps.throw {e : Error} (other : e ≠ .idsExhausted) : A.Keeps (throw e : Change σ α) s post :=
  After.throw (A.refuses other)

theorem Keeps.throw_lenient {e : Error} (lenient : A.Lenient) :
    A.Keeps (MonadExcept.throw e : Change σ α) s post :=
  After.throw (lenient s e)

/-- Reading the state goes on from the same state. -/
theorem Keeps.bind_get {next : σ → Change σ β} {last : β → σ → Prop} (h : A.Keeps (next s) s last) :
    A.Keeps (MonadState.get >>= next) s last := h

theorem Keeps.modify {f : σ → σ} (move : A.moves s (f s)) :
    A.Keeps (modify f : Change σ Unit) s fun _ t => t = f s :=
  After.modify ⟨move, rfl⟩

theorem Keeps.check {result : Except Error α} (spares : SparesIds result) :
    A.Keeps (liftM result : Change σ α) s fun a t => result = .ok a ∧ t = s :=
  After.check (fun _ found => ⟨A.refl s, found, rfl⟩) fun _ found => A.refuses fun same => spares (same ▸ found)

theorem Keeps.check_lenient {result : Except Error α} (lenient : A.Lenient) :
    A.Keeps (liftM result : Change σ α) s fun a t => result = .ok a ∧ t = s :=
  After.check (fun _ found => ⟨A.refl s, found, rfl⟩) fun e _ => lenient s e

/-- Checks change nothing, so what follows starts from the same state. -/
theorem Keeps.after_check {result : Except Error α} {next : α → Change σ β} {last : β → σ → Prop}
    (lenient : A.Lenient) (rest : ∀ a, A.Keeps (next a) s last) :
    A.Keeps ((liftM result : Change σ α) >>= next) s last := by
  refine (Keeps.check_lenient lenient).bind fun a t _ held => ?_
  obtain ⟨-, rfl⟩ := held
  exact rest a

theorem Keeps.forM {f : α → Change σ Unit} {entries : List α} {s : σ}
    (each : ∀ a ∈ entries, ∀ t, A.moves s t → A.Keeps (f a) t fun _ _ => True) :
    A.Keeps (entries.forM f) s fun _ _ => True := by
  induction entries generalizing s with
  | nil => exact Keeps.pure True.intro
  | cons a rest ih =>
    apply Keeps.bind (each a (by simp) s (A.refl s))
    intro _ t move _
    exact ih fun b member u further => each b (by simp [member]) u (A.trans move further)

theorem Keeps.mapM {f : α → Change σ β} (entries : List α) {s : σ}
    (each : ∀ a ∈ entries, ∀ t, A.Keeps (f a) t fun _ _ => True) : A.Keeps (entries.mapM f) s fun _ _ => True := by
  induction entries generalizing s with
  | nil => exact Keeps.pure True.intro
  | cons a rest ih =>
    rw [List.mapM_cons]
    refine (each a (List.mem_cons_self ..) s).seq fun _ _ _ => ?_
    exact (ih fun b member => each b (List.mem_cons_of_mem _ member)).seq fun _ _ _ => Keeps.pure True.intro

/-- What a loop keeps beside the account. -/
theorem Keeps.foldlM {f : β → α → Change σ β} {entries : List α} (inv : List α → β → σ → Prop) {b : β} {s : σ}
    (start : inv [] b s)
    (each : ∀ done a rest b t, entries = done ++ a :: rest → A.moves s t → inv done b t →
      A.Keeps (f b a) t (inv (done ++ [a]))) :
    A.Keeps (entries.foldlM f b) s (inv entries) :=
  After.foldlM (fun done b t => A.moves s t ∧ inv done b t) ⟨A.refl s, start⟩
    fun done a rest b t split held => (each done a rest b t split held.1 held.2).after_move held.1

/-- What an account says of a part, another one may say of the whole. -/
theorem Keeps.part {B : Account τ} {read : σ → τ} {write : σ → τ → σ} {change : Change τ α}
    {inner : α → τ → Prop} (h : B.Keeps change (read s) inner)
    (move : ∀ t, B.moves (read s) t → A.moves s (write s t))
    (failed : ∀ e t, B.fails (read s) e t → A.fails s e (write s t))
    (answer : ∀ a t, B.moves (read s) t → inner a t → post a (write s t)) :
    A.Keeps (Change.within read write change) s post :=
  After.within (After.mono h (fun a t held => ⟨move t held.1, answer a t held.1 held.2⟩) fun e t => failed e t)

/-- An account with fewer moves and failures is a stronger one. -/
theorem Keeps.into {B : Account σ} (h : B.Keeps change s post) (move : ∀ t, B.moves s t → A.moves s t)
    (failed : ∀ e t, B.fails s e t → A.fails s e t) : A.Keeps change s post :=
  After.mono h (fun _ t held => ⟨move t held.1, held.2⟩) fun e t => failed e t

/-! ### Steps -/

/-- Changes that go on in steps. A change that fails may have made a last step of another kind. -/
def walk (step last : σ → σ → Prop) : Account σ where
  moves := Relation.ReflTransGen step
  fails s _ t := ∃ u, Relation.ReflTransGen step s u ∧ Relation.ReflGen last u t
  refl _ := .refl
  trans := .trans
  later first failed :=
    let ⟨u, more, ending⟩ := failed
    ⟨u, first.trans more, ending⟩
  refuses _ := ⟨_, .refl, .refl⟩

variable {step step' last : σ → σ → Prop}

theorem walk_lenient : (walk step last).Lenient :=
  fun s _ => ⟨s, .refl, .refl⟩

/-- What every step does, all steps together do. A step comes after a move that is made already. -/
theorem moves_of_walk (each : ∀ {t u}, A.moves s t → step t u → A.moves t u) (h : Relation.ReflTransGen step s t) :
    A.moves s t := by
  induction h with
  | refl => exact A.refl s
  | tail _ step ih => exact A.trans ih (each ih step)

/-- What every step does, also a last one, is done wherever the walk ends. -/
theorem moves_of_fails {e : Error} (each : ∀ {t u}, A.moves s t → step t u → A.moves t u)
    (ending : ∀ {t u}, last t u → A.moves t u) (h : (walk step last).fails s e t) : A.moves s t := by
  obtain ⟨u, walked, ended⟩ := h
  refine A.trans (moves_of_walk each walked) ?_
  cases ended with
  | refl => exact A.refl _
  | single lost => exact ending lost

/-- A walk in steps that another account allows. -/
theorem Keeps.of_walk (lenient : A.Lenient) (each : ∀ {t u}, A.moves s t → step t u → A.moves t u)
    (ending : ∀ {t e u}, last t u → A.fails t e u) (h : (walk step last).Keeps change s post) :
    A.Keeps change s post := by
  refine h.into (fun t => moves_of_walk each) fun e t failed => ?_
  obtain ⟨u, walked, ended⟩ := failed
  refine A.later (moves_of_walk each walked) ?_
  cases ended with
  | refl => exact lenient _ e
  | single lost => exact ending lost

theorem walk_moves_mono (each : ∀ {s t}, step s t → step' s t) (h : Relation.ReflTransGen step s t) :
    Relation.ReflTransGen step' s t :=
  Relation.ReflTransGen.mono (fun _ _ => each) _ _ h

theorem walk_fails_mono {e : Error} (each : ∀ {s t}, step s t → step' s t) (h : (walk step last).fails s e t) :
    (walk step' last).fails s e t := by
  obtain ⟨u, walked, ended⟩ := h
  exact ⟨u, walk_moves_mono each walked, ended⟩

theorem Keeps.walk_mono (each : ∀ {s t}, step s t → step' s t) (h : (walk step last).Keeps change s post) :
    (walk step' last).Keeps change s post :=
  h.into (fun _ => walk_moves_mono each) fun _ _ => walk_fails_mono each

end Account

structure Contract (σ : Type) where
  moves : σ → σ → Prop
  /-- Whether ids may have run out. -/
  exhausted : σ → Prop
  refl : ∀ s, moves s s
  trans : ∀ {s t u}, moves s t → moves t u → moves s u

namespace Contract

open Change

variable (C : Contract σ)

def Fails (s : σ) (e : Error) (t : σ) : Prop :=
  C.moves s t ∧ (e = .idsExhausted → C.exhausted t)

def account : Account σ where
  moves := C.moves
  fails := C.Fails
  refl := C.refl
  trans := C.trans
  later move failed := ⟨C.trans move failed.1, failed.2⟩
  refuses other := ⟨C.refl _, fun same => absurd same other⟩

abbrev Keeps (change : Change σ α) (s : σ) (post : α → σ → Prop) : Prop :=
  C.account.Keeps change s post

def Lenient : Prop :=
  ∀ s, C.exhausted s

variable {C} {change : Change σ α} {s t : σ} {post : α → σ → Prop}

theorem Lenient.account (h : C.Lenient) : C.account.Lenient :=
  fun s _ => ⟨C.refl s, fun _ => h s⟩

/-- A contract of a part, kept by a change of the part, keeps the contract of the whole that it implies. -/
theorem Keeps.within {D : Contract τ} {read : σ → τ} {write : σ → τ → σ} {change : Change τ α}
    {part : α → τ → Prop} (h : D.Keeps change (read s) part)
    (move : ∀ t, D.moves (read s) t → C.moves s (write s t))
    (exhausted : ∀ t, D.exhausted t → C.exhausted (write s t))
    (answer : ∀ a t, D.moves (read s) t → part a t → post a (write s t)) :
    C.Keeps (Change.within read write change) s post :=
  Account.Keeps.part h move (fun _ t held => ⟨move t held.1, fun same => exhausted t (held.2 same)⟩) answer

/-- A contract with fewer moves and failures is a stronger one. -/
theorem Keeps.weaken {D : Contract σ} (h : D.Keeps change s post)
    (move : ∀ t, D.moves s t → C.moves s t) (exhausted : ∀ t, D.exhausted t → C.exhausted t) :
    C.Keeps change s post :=
  Account.Keeps.into h move fun _ t held => ⟨move t held.1, fun same => exhausted t (held.2 same)⟩

def inSteps (step : σ → σ → Prop) : Contract σ where
  moves := Relation.ReflTransGen step
  exhausted _ := False
  refl _ := .refl
  trans := .trans

theorem keeps_of_inSteps {A : Account σ} {step : σ → σ → Prop}
    (each : ∀ {t u}, A.moves s t → step t u → A.moves t u) (h : (inSteps step).Keeps change s post) :
    A.Keeps change s post :=
  Account.Keeps.into h (fun _ => Account.moves_of_walk each) fun _ _ failed =>
    A.later (Account.moves_of_walk each failed.1) (A.refuses failed.2)

/-- A change that takes a step. -/
theorem keeps_step {step : σ → σ → Prop} {f : σ → σ} (single : step s (f s)) :
    (inSteps step).Keeps (modify f) s fun _ t => t = f s :=
  After.modify ⟨.single single, rfl⟩

end Contract

end BlockTally
