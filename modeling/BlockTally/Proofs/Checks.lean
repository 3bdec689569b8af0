import BlockTally.Error

/-! Checks: what it takes that they pass, and which errors they may end in. -/

set_option autoImplicit false

namespace BlockTally

variable {α β : Type}

theorem except_bind_ok_iff {result : Except Error α} {next : α → Except Error β} {b : β} :
    (result >>= next) = .ok b ↔ ∃ a, result = .ok a ∧ next a = .ok b := by
  cases result with
  | ok a => simp [bind, Except.bind]
  | error e => simp [bind, Except.bind]

/-- A check without an answer, then the rest. -/
theorem except_then_ok_iff {check : Except Error Unit} {next : Unit → Except Error β} {b : β} :
    (check >>= next) = .ok b ↔ check = .ok () ∧ next () = .ok b := by
  rw [except_bind_ok_iff]
  exact ⟨fun ⟨_, first, rest⟩ => ⟨first, rest⟩, fun ⟨first, rest⟩ => ⟨(), first, rest⟩⟩

theorem except_forM_ok_iff {check : α → Except Error Unit} {entries : List α} :
    entries.forM check = .ok () ↔ ∀ a ∈ entries, check a = .ok () := by
  induction entries with
  | nil => simp [pure, Except.pure]
  | cons a rest ih =>
    simp only [List.forM_eq_forM, List.forM_cons] at ih ⊢
    rw [except_then_ok_iff, ih, List.forall_mem_cons]

/-- What a loop of checks that pass keeps: `inv` speaks of the entries that are done. -/
theorem except_foldlM_ok {f : β → α → Except Error β} {entries : List α} (inv : List α → β → Prop) {b last : β}
    (passed : entries.foldlM f b = .ok last) (start : inv [] b)
    (each : ∀ done a rest b b', entries = done ++ a :: rest → inv done b → f b a = .ok b' → inv (done ++ [a]) b') :
    inv entries last := by
  -- The induction is on what is left, for any part that is done.
  have from_here (done rest : List α) (b : β) (split : entries = done ++ rest) (held : inv done b)
      (passed : rest.foldlM f b = .ok last) : inv entries last := by
    induction rest generalizing done b with
    | nil =>
      rw [List.append_nil] at split
      obtain rfl := Except.ok.inj passed
      exact split ▸ held
    | cons a rest ih =>
      rw [List.foldlM_cons, except_bind_ok_iff] at passed
      obtain ⟨b', first, passed⟩ := passed
      exact ih (done ++ [a]) b' (by simpa using split) (each done a rest b b' split held first) passed
  exact from_here [] entries b rfl start passed

/-- A loop of checks passes, or it fails at one of its entries, with all entries before that done. -/
theorem except_foldlM_cases (f : β → α → Except Error β) (entries : List α) (b : β) (inv : List α → β → Prop)
    (start : inv [] b)
    (each : ∀ done a rest b b', entries = done ++ a :: rest → inv done b → f b a = .ok b' → inv (done ++ [a]) b') :
    (∃ last, entries.foldlM f b = .ok last ∧ inv entries last) ∨
    ∃ done a rest here e, entries = done ++ a :: rest ∧ inv done here ∧ f here a = .error e ∧
      entries.foldlM f b = .error e := by
  have from_here (done rest : List α) (b : β) (split : entries = done ++ rest) (held : inv done b) :
      (∃ last, rest.foldlM f b = .ok last ∧ inv entries last) ∨
      ∃ done a later here e, entries = done ++ a :: later ∧ inv done here ∧ f here a = .error e ∧
        rest.foldlM f b = .error e := by
    induction rest generalizing done b with
    | nil =>
      rw [List.append_nil] at split
      exact .inl ⟨b, rfl, split ▸ held⟩
    | cons a rest ih =>
      rw [List.foldlM_cons]
      cases step : f b a with
      | error e => exact .inr ⟨done, a, rest, b, e, split, held, step, rfl⟩
      | ok b' => exact ih (done ++ [a]) b' (by simpa using split) (each done a rest b b' split held step)
  exact from_here [] entries b rfl start

theorem except_foldlM_congr {f g : β → α → Except Error β} {entries : List α} {b : β}
    (same : ∀ a ∈ entries, ∀ b, f b a = g b a) : entries.foldlM f b = entries.foldlM g b := by
  induction entries generalizing b with
  | nil => rfl
  | cons a rest ih =>
    rw [List.forall_mem_cons] at same
    rw [List.foldlM_cons, List.foldlM_cons, same.1 b]
    exact congrArg _ (funext fun b' => ih same.2)

/-- A fold that passes passes with another step as well that agrees where the first one passes. -/
theorem except_foldlM_ok_congr {f g : β → α → Except Error β} {entries : List α} {b last : β}
    (passed : entries.foldlM f b = .ok last) (same : ∀ a ∈ entries, ∀ b b', f b a = .ok b' → g b a = .ok b') :
    entries.foldlM g b = .ok last := by
  induction entries generalizing b with
  | nil => exact passed
  | cons a rest ih =>
    rw [List.forall_mem_cons] at same
    rw [List.foldlM_cons, except_bind_ok_iff] at *
    obtain ⟨b', here, there⟩ := passed
    exact ⟨b', same.1 b b' here, ih there same.2⟩

/-- Two folds keep a relation that their steps keep. -/
theorem except_foldlM_rel {f g : β → α → Except Error β} {rel : β → β → Prop} {entries : List α} {b b' last : β}
    (passed : entries.foldlM f b = .ok last) (start : rel b b')
    (each : ∀ a ∈ entries, ∀ b b' c, rel b b' → f b a = .ok c → ∃ c', g b' a = .ok c' ∧ rel c c') :
    ∃ last', entries.foldlM g b' = .ok last' ∧ rel last last' := by
  induction entries generalizing b b' with
  | nil =>
    obtain rfl := Except.ok.inj passed
    exact ⟨b', rfl, start⟩
  | cons a rest ih =>
    rw [List.forall_mem_cons] at each
    rw [List.foldlM_cons, except_bind_ok_iff] at passed
    obtain ⟨c, here, there⟩ := passed
    obtain ⟨c', here', related⟩ := each.1 b b' c start here
    obtain ⟨last', there', ends⟩ := ih there related each.2
    exact ⟨last', by rw [List.foldlM_cons, here']; exact there', ends⟩

theorem except_mapM_ok_congr {f g : α → Except Error β} {entries : List α} {answers : List β}
    (passed : entries.mapM f = .ok answers) (same : ∀ a ∈ entries, ∀ b, f a = .ok b → g a = .ok b) :
    entries.mapM g = .ok answers := by
  induction entries generalizing answers with
  | nil => exact passed
  | cons a rest ih =>
    rw [List.forall_mem_cons] at same
    simp only [List.mapM_cons, except_bind_ok_iff] at *
    obtain ⟨first, here, others, there, last⟩ := passed
    exact ⟨first, same.1 first here, others, ih there same.2, last⟩

theorem except_mapM_isOk {f : α → Except Error β} {entries : List α} (each : ∀ a ∈ entries, ∃ b, f a = .ok b) :
    ∃ answers, entries.mapM f = .ok answers := by
  induction entries with
  | nil => exact ⟨[], rfl⟩
  | cons a rest ih =>
    rw [List.forall_mem_cons] at each
    obtain ⟨first, here⟩ := each.1
    obtain ⟨others, there⟩ := ih each.2
    exact ⟨first :: others, by rw [List.mapM_cons, here, there]; rfl⟩

theorem except_foldlM_isOk {f : β → α → Except Error β} {entries : List α} (b : β)
    (each : ∀ a ∈ entries, ∀ b, ∃ b', f b a = .ok b') : ∃ last, entries.foldlM f b = .ok last := by
  induction entries generalizing b with
  | nil => exact ⟨b, rfl⟩
  | cons a rest ih =>
    rw [List.forall_mem_cons] at each
    obtain ⟨b', here⟩ := each.1 b
    rw [List.foldlM_cons, here]
    exact ih b' each.2

theorem except_each_of_mapM_ok {f : α → Except Error β} {entries : List α} {answers : List β}
    (passed : entries.mapM f = .ok answers) : ∀ a ∈ entries, ∃ b, f a = .ok b := by
  induction entries generalizing answers with
  | nil => exact nofun
  | cons a rest ih =>
    simp only [List.mapM_cons, except_bind_ok_iff] at passed
    obtain ⟨first, here, others, there, -⟩ := passed
    exact List.forall_mem_cons.mpr ⟨⟨first, here⟩, ih there⟩

theorem except_mem_mapM_ok {f : α → Except Error β} {entries : List α} {answers : List β}
    (passed : entries.mapM f = .ok answers) {b : β} : b ∈ answers ↔ ∃ a ∈ entries, f a = .ok b := by
  induction entries generalizing answers with
  | nil =>
    obtain rfl := Except.ok.inj passed
    simp
  | cons a rest ih =>
    simp only [List.mapM_cons, except_bind_ok_iff] at passed
    obtain ⟨first, here, others, there, last⟩ := passed
    obtain rfl := Except.ok.inj last
    rw [List.mem_cons, ih there]
    constructor
    · rintro (rfl | ⟨c, member, answer⟩)
      · exact ⟨a, List.mem_cons_self .., here⟩
      · exact ⟨c, List.mem_cons_of_mem _ member, answer⟩
    · rintro ⟨c, member, answer⟩
      rcases List.mem_cons.mp member with rfl | member
      · exact .inl (Except.ok.inj (answer.symm.trans here))
      · exact .inr ⟨c, member, answer⟩

def FailsOnly (kind : Error → Prop) (result : Except Error α) : Prop :=
  ∀ e, result = .error e → kind e

namespace FailsOnly

variable {kind : Error → Prop}

theorem ok (a : α) : FailsOnly kind (.ok a : Except Error α) := nofun

theorem error {e : Error} (h : kind e) : FailsOnly kind (.error e : Except Error α) := by
  rintro _ ⟨⟩
  exact h

theorem mono {other : Error → Prop} {result : Except Error α} (h : FailsOnly kind result)
    (weaker : ∀ e, kind e → other e) : FailsOnly other result :=
  fun e failed => weaker e (h e failed)

theorem bind {result : Except Error α} {next : α → Except Error β} (first : FailsOnly kind result)
    (rest : ∀ a, FailsOnly kind (next a)) : FailsOnly kind (result >>= next) := by
  cases result with
  | ok a => exact rest a
  | error e => exact error (first e rfl)

theorem map {result : Except Error α} (f : α → β) (first : FailsOnly kind result) : FailsOnly kind (f <$> result) := by
  cases result with
  | ok a => exact ok _
  | error e => exact error (first e rfl)

theorem foldlM {f : β → α → Except Error β} (each : ∀ b a, FailsOnly kind (f b a)) (entries : List α) (b : β) :
    FailsOnly kind (entries.foldlM f b) := by
  induction entries generalizing b with
  | nil => exact ok b
  | cons a rest ih =>
    rw [List.foldlM_cons]
    exact (each b a).bind ih

theorem mapM {f : α → Except Error β} (each : ∀ a, FailsOnly kind (f a)) (entries : List α) :
    FailsOnly kind (entries.mapM f) := by
  induction entries with
  | nil => exact ok []
  | cons a rest ih =>
    rw [List.mapM_cons]
    exact (each a).bind fun b => ih.bind fun _ => ok _

theorem ite {c : Prop} [Decidable c] {result other : Except Error α} (yes : FailsOnly kind result)
    (no : FailsOnly kind other) : FailsOnly kind (if c then result else other) := by
  split
  · exact yes
  · exact no

/-- A check that ends in an error in any case. -/
theorem then_error {result : Except Error α} {e : α → Error} (first : FailsOnly kind result)
    (last : ∀ a, kind (e a)) : FailsOnly kind (result >>= fun a => (throw (e a) : Except Error β)) :=
  first.bind fun a => error (last a)

end FailsOnly

def SparesIds (result : Except Error α) : Prop :=
  result ≠ .error .idsExhausted

theorem FailsOnly.sparesIds {kind : Error → Prop} {result : Except Error α} (h : FailsOnly kind result)
    (other : ¬kind .idsExhausted) : SparesIds result :=
  fun failed => other (h _ failed)

end BlockTally
