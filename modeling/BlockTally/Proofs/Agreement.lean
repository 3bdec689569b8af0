import BlockTally.Proofs.Contract
import Mathlib.Data.List.Forall2

/-! Computations that agree.

Two computations agree if from related states both come to related answers in related states, or both fail with the
same error. The relation of the states is one and the same all along, so that a proof follows the two programs step
by step.
-/

set_option autoImplicit false

namespace BlockTally

variable {σ τ σ' τ' α β γ δ : Type} {R : α → β → Prop} {S : γ → δ → Prop}

/-! ### Checks -/

inductive Corresponds (R : α → β → Prop) : Except Error α → Except Error β → Prop where
  | ok {a : α} {b : β} : R a b → Corresponds R (.ok a) (.ok b)
  | error (e : Error) : Corresponds R (.error e) (.error e)

namespace Corresponds

theorem refl (result : Except Error α) : Corresponds Eq result result := by
  cases result with
  | ok => exact .ok rfl
  | error => exact .error _

theorem eq {result result' : Except Error α} (h : Corresponds Eq result result') : result = result' := by
  cases h with
  | ok same => rw [same]
  | error => rfl

theorem bind {result : Except Error α} {result' : Except Error β} {next : α → Except Error γ}
    {next' : β → Except Error δ} (h : Corresponds R result result')
    (rest : ∀ a b, R a b → Corresponds S (next a) (next' b)) :
    Corresponds S (result >>= next) (result' >>= next') := by
  cases h with
  | ok related => exact rest _ _ related
  | error e => exact .error e

theorem foldlM {f : γ → α → Except Error γ} {g : δ → β → Except Error δ} {entries : List α} {entries' : List β}
    (listed : List.Forall₂ R entries entries') {c : γ} {d : δ} (start : S c d)
    (each : ∀ a b, R a b → ∀ c d, S c d → Corresponds S (f c a) (g d b)) :
    Corresponds S (entries.foldlM f c) (entries'.foldlM g d) := by
  induction listed generalizing c d with
  | nil => exact .ok start
  | cons here _ ih =>
    rw [List.foldlM_cons, List.foldlM_cons]
    exact (each _ _ here _ _ start).bind fun _ _ => ih

theorem mapM {f : α → Except Error γ} {g : β → Except Error δ} {entries : List α} {entries' : List β}
    (listed : List.Forall₂ R entries entries') (each : ∀ a b, R a b → Corresponds S (f a) (g b)) :
    Corresponds (List.Forall₂ S) (entries.mapM f) (entries'.mapM g) := by
  induction listed with
  | nil => exact .ok .nil
  | cons here _ ih =>
    rw [List.mapM_cons, List.mapM_cons]
    exact (each _ _ here).bind fun _ _ first => ih.bind fun _ _ others => .ok (.cons first others)

end Corresponds

namespace Change

inductive SameOutcome (Rel : σ → τ → Prop) (R : α → β → Prop) :
    EStateM.Result Error σ α → EStateM.Result Error τ β → Prop where
  | ok {a : α} {b : β} {s : σ} {t : τ} : R a b → Rel s t → SameOutcome Rel R (.ok a s) (.ok b t)
  | error (e : Error) (s : σ) (t : τ) : SameOutcome Rel R (.error e s) (.error e t)

def Agrees (Rel : σ → τ → Prop) (change : Change σ α) (change' : Change τ β) (R : α → β → Prop) : Prop :=
  ∀ s t, Rel s t → SameOutcome Rel R (change s) (change' t)

variable {Rel : σ → τ → Prop} {change : Change σ α} {change' : Change τ β}

theorem SameOutcome.mono {Rel' : σ → τ → Prop} {R' : α → β → Prop} {result : EStateM.Result Error σ α}
    {result' : EStateM.Result Error τ β} (h : SameOutcome Rel R result result') (answers : ∀ a b, R a b → R' a b)
    (states : ∀ s t, Rel s t → Rel' s t) : SameOutcome Rel' R' result result' := by
  cases h with
  | ok related held => exact .ok (answers _ _ related) (states _ _ held)
  | error => exact .error ..

theorem SameOutcome.bind {Rel' : σ → τ → Prop} {s : σ} {t : τ} {next : α → Change σ γ} {next' : β → Change τ δ}
    (h : SameOutcome Rel R (change s) (change' t))
    (rest : ∀ a b s t, R a b → Rel s t → SameOutcome Rel' S (next a s) (next' b t)) :
    SameOutcome Rel' S ((change >>= next) s) ((change' >>= next') t) := by
  simp only [Bind.bind, EStateM.bind]
  generalize change s = result at h
  generalize change' t = result' at h
  cases h with
  | ok related held => exact rest _ _ _ _ related held
  | error => exact .error ..

theorem SameOutcome.bind_get {s : σ} {t : τ} {next : σ → Change σ γ} {next' : τ → Change τ δ}
    (h : SameOutcome Rel S (next s s) (next' t t)) :
    SameOutcome Rel S ((MonadState.get >>= next) s) ((MonadState.get >>= next') t) := h

theorem SameOutcome.bind_modify {s : σ} {t : τ} {f : σ → σ} {g : τ → τ} {next : Unit → Change σ γ}
    {next' : Unit → Change τ δ} (h : SameOutcome Rel S (next () (f s)) (next' () (g t))) :
    SameOutcome Rel S ((modify f >>= next) s) ((modify g >>= next') t) := h

namespace Agrees

theorem pure {a : α} {b : β} (related : R a b) : Agrees Rel (pure a) (pure b) R :=
  fun _ _ held => .ok related held

theorem throw (e : Error) : Agrees Rel (throw e : Change σ α) (throw e : Change τ β) R :=
  fun s t _ => .error e s t

theorem bind {next : α → Change σ γ} {next' : β → Change τ δ} (h : Agrees Rel change change' R)
    (rest : ∀ a b, R a b → Agrees Rel (next a) (next' b) S) : Agrees Rel (change >>= next) (change' >>= next') S :=
  fun s t held => (h s t held).bind fun a b s t related held => rest a b related s t held

/-- Both go on with the same answer. -/
theorem seq {change : Change σ α} {change' : Change τ α} {next : α → Change σ γ} {next' : α → Change τ δ}
    (h : Agrees Rel change change' Eq) (rest : ∀ a, Agrees Rel (next a) (next' a) S) :
    Agrees Rel (change >>= next) (change' >>= next') S :=
  h.bind fun a _ same => same ▸ rest a

/-- Both go on from the state that they are in. -/
theorem bind_get {next : σ → Change σ γ} {next' : τ → Change τ δ}
    (rest : ∀ s t, Rel s t → Agrees Rel (next s) (next' t) S) :
    Agrees Rel (MonadState.get >>= next) (MonadState.get >>= next') S :=
  fun s t held => .bind_get (rest s t held s t held)

theorem modify {f : σ → σ} {g : τ → τ} (kept : ∀ s t, Rel s t → Rel (f s) (g t)) :
    Agrees Rel (modify f : Change σ Unit) (modify g) Eq :=
  fun s t held => .ok rfl (kept s t held)

theorem discard (h : Agrees Rel change change' R) : Agrees Rel (discard change) (discard change') Eq :=
  h.bind fun _ _ _ => pure rfl

theorem check {result : Except Error α} {result' : Except Error β} (h : Corresponds R result result') :
    Agrees Rel (liftM result : Change σ α) (liftM result' : Change τ β) R := by
  intro s t held
  cases h with
  | ok related => exact .ok related held
  | error e => exact .error e s t

/-- One and the same check. -/
theorem seq_check {result : Except Error α} {next : α → Change σ γ} {next' : α → Change τ δ}
    (rest : ∀ a, Agrees Rel (next a) (next' a) S) :
    Agrees Rel ((liftM result : Change σ α) >>= next) ((liftM result : Change τ α) >>= next') S :=
  (check (.refl _)).seq rest

/-- Changes of a part, seen from the whole. -/
theorem within {Part : σ' → τ' → Prop} {read : σ → σ'} {write : σ → σ' → σ} {read' : τ → τ'} {write' : τ → τ' → τ}
    {change : Change σ' α} {change' : Change τ' β} (h : Agrees Part change change' R)
    (part : ∀ s t, Rel s t → Part (read s) (read' t))
    (whole : ∀ s t s' t', Rel s t → Part s' t' → Rel (write s s') (write' t t')) :
    Agrees Rel (Change.within read write change) (Change.within read' write' change') R := by
  intro s t held
  have inner := h _ _ (part s t held)
  unfold Change.within
  generalize change (read s) = result at inner
  generalize change' (read' t) = result' at inner
  cases inner with
  | ok related after => exact .ok related (whole s t _ _ held after)
  | error => exact .error ..

theorem foldlM {f : γ → α → Change σ γ} {g : δ → β → Change τ δ} {entries : List α} {entries' : List β}
    (listed : List.Forall₂ R entries entries') {c : γ} {d : δ} (start : S c d)
    (each : ∀ a b, R a b → ∀ c d, S c d → Agrees Rel (f c a) (g d b) S) :
    Agrees Rel (entries.foldlM f c) (entries'.foldlM g d) S := by
  induction listed generalizing c d with
  | nil => exact pure start
  | cons here _ ih =>
    rw [List.foldlM_cons, List.foldlM_cons]
    exact (each _ _ here _ _ start).bind fun _ _ => ih

theorem forM {f : α → Change σ Unit} {g : β → Change τ Unit} {entries : List α} {entries' : List β}
    (listed : List.Forall₂ R entries entries') (each : ∀ a b, R a b → Agrees Rel (f a) (g b) Eq) :
    Agrees Rel (entries.forM f) (entries'.forM g) Eq := by
  induction listed with
  | nil => exact pure rfl
  | cons here _ ih => exact (each _ _ here).bind fun _ _ _ => ih

theorem mapM {f : α → Change σ γ} {g : β → Change τ δ} {entries : List α} {entries' : List β}
    (listed : List.Forall₂ R entries entries') (each : ∀ a b, R a b → Agrees Rel (f a) (g b) S) :
    Agrees Rel (entries.mapM f) (entries'.mapM g) (List.Forall₂ S) := by
  induction listed with
  | nil => exact pure .nil
  | cons here _ ih =>
    rw [List.mapM_cons, List.mapM_cons]
    exact (each _ _ here).bind fun _ _ first => ih.bind fun _ _ others => pure (.cons first others)

/-- Both go through one and the same list. -/
theorem forM_same {f : α → Change σ Unit} {g : α → Change τ Unit} (entries : List α)
    (each : ∀ a, Agrees Rel (f a) (g a) Eq) : Agrees Rel (entries.forM f) (entries.forM g) Eq :=
  forM (R := Eq) (List.forall₂_refl entries) fun a _ same => same ▸ each a

theorem mapM_same {f : α → Change σ γ} {g : α → Change τ δ} (entries : List α)
    (each : ∀ a, Agrees Rel (f a) (g a) S) : Agrees Rel (entries.mapM f) (entries.mapM g) (List.Forall₂ S) :=
  mapM (R := Eq) (List.forall₂_refl entries) fun a _ same => same ▸ each a

end Agrees

end Change

end BlockTally
