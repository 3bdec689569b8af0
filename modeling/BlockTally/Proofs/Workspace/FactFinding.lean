import BlockTally.Proofs.Contract
import BlockTally.Proofs.Exhaustion
import BlockTally.Proofs.Workspace.Reading

/-! Facts are found.

Where nothing but facts is looked for, the program and the tables stay as they are. The table of types is read from the
declarations, with the annotations that are found on the way.
-/

set_option autoImplicit false

namespace BlockTally.Workspace

open Account Contract

inductive Find (w : Workspace) : Workspace → Prop where
  | uses : Find w { w with facts := { w.facts with uses := some (Uses.ofProgram w.program) } }
  | annotations {a : Annotations} (unread : w.facts.annotations = none)
      (read : Annotations.ofProgram w.program = .ok a) :
      Find w { w with facts := { w.facts with annotations := some a } }
  | features {f : Features} (read : Features.ofProgram w.program = .ok f) :
      Find w { w with facts := { w.facts with features := some f } }

def finds : Contract Workspace :=
  inSteps Find

/-- Facts are looked at or changed, but not the tables. -/
def looks : Contract Workspace where
  moves w w' := w'.program = w.program ∧ w'.facts.types = w.facts.types ∧ w'.facts.constants = w.facts.constants
  exhausted _ := False
  refl _ := ⟨rfl, rfl, rfl⟩
  trans first second := ⟨second.1.trans first.1, second.2.1.trans first.2.1, second.2.2.trans first.2.2⟩

variable {α : Type} {w w' : Workspace}

theorem Find.looks (find : w.Find w') : looks.moves w w' := by
  cases find <;> exact ⟨rfl, rfl, rfl⟩

theorem looks_of_finds (h : finds.moves w w') : looks.moves w w' :=
  moves_of_walk (A := looks.account) (fun _ => Find.looks) h

theorem finds_needUses : finds.Keeps needUses w fun u w' => w'.facts.uses = some u := by
  unfold needUses
  apply Keeps.bind_get
  split
  next u found => exact Keeps.pure found
  next => exact Keeps.bind_get ((keeps_step .uses).bind fun _ w₁ _ same => Keeps.pure (same ▸ rfl))

/-- Annotations that are known are the ones that are found. -/
theorem finds_needAnnotations : finds.Keeps needAnnotations w fun a w' =>
    w'.facts.annotations = some a ∧ ∀ b, w.facts.annotations = some b → b = a := by
  unfold needAnnotations
  apply Keeps.bind_get
  cases found : w.facts.annotations with
  | some a => exact Keeps.pure ⟨found, fun b same => (Option.some.inj same).symm⟩
  | none =>
    apply Keeps.bind_get
    refine (Keeps.check (Annotations.ofProgram_onlyFaults _).sparesIds).bind fun a w₁ _ held => ?_
    obtain ⟨read, rfl⟩ := held
    exact (keeps_step (.annotations found read)).bind fun _ w₂ _ same => Keeps.pure ⟨same ▸ rfl, nofun⟩

theorem finds_needFeatures : finds.Keeps needFeatures w fun f w' => w'.facts.features = some f := by
  unfold needFeatures
  apply Keeps.bind_get
  split
  next f found => exact Keeps.pure found
  next =>
    apply Keeps.bind_get
    refine (Keeps.check (Features.ofProgram_onlyFaults _).sparesIds).bind fun f w₁ _ held => ?_
    obtain ⟨read, rfl⟩ := held
    exact (keeps_step (.features read)).bind fun _ w₂ _ same => Keeps.pure (same ▸ rfl)

/-! ### Reading the declared types -/

theorem finds_readType (t : TypeTable) (r : InstRef) : finds.Keeps (readType t r) w fun t' w' =>
    ∃ a, w'.facts.annotations = some a ∧ (∀ b, w.facts.annotations = some b → b = a) ∧
      TypeTable.read w.program a t r = .ok t' := by
  unfold readType
  apply Keeps.bind_get
  refine (Keeps.check (Ty.ofInstruction_onlyFaults _ _).sparesIds).bind fun plain w₁ _ held => ?_
  obtain ⟨declared, rfl⟩ := held
  refine finds_needAnnotations.bind fun a w₂ _ held => ?_
  obtain ⟨found, first⟩ := held
  refine (Keeps.check (Ty.decorated_onlyFaults _ _ _).sparesIds).bind fun ty w₃ _ held => ?_
  obtain ⟨decorated, rfl⟩ := held
  refine (Keeps.check (Ty.checkStorage_onlyFaults ty).sparesIds).bind fun _ w₄ _ held => ?_
  obtain ⟨stored, rfl⟩ := held
  exact Keeps.pure ⟨a, found, first, TypeTable.read_ok_iff.mpr ⟨plain, declared, ty, decorated, stored, rfl⟩⟩

def HasRead (w : Workspace) (t : TypeTable) : Prop :=
  ∃ a, (w.program.declarations ≠ [] → w.facts.annotations = some a) ∧
    w.program.declarations.foldlM (TypeTable.read w.program a) {} = .ok t

/-- Some declarations were read in turns. Once there was one, the annotations are known and stay the same. -/
def ReadInTurns (w : Workspace) (done : List InstRef) (t : TypeTable) (w' : Workspace) : Prop :=
  ∃ a, (done ≠ [] → w'.facts.annotations = some a) ∧ done.foldlM (TypeTable.read w.program a) {} = .ok t

theorem ReadInTurns.next {done : List InstRef} {t : TypeTable} (h : w.ReadInTurns done t w')
    (program : w'.program = w.program) (r : InstRef) :
    finds.Keeps (readType t r) w' (w.ReadInTurns (done ++ [r])) := by
  obtain ⟨a, found, read⟩ := h
  refine (finds_readType t r).mono fun t' w₂ _ held => ?_
  obtain ⟨b, found', first, step⟩ := held
  refine ⟨b, fun _ => found', ?_⟩
  rw [program] at step
  have before : done.foldlM (TypeTable.read w.program b) {} = .ok t := by
    by_cases none : done = []
    · rw [none] at read ⊢
      exact read
    · rw [← first a (found none)]
      exact read
  rw [List.foldlM_append, before]
  exact except_bind_ok_iff.mpr ⟨t, rfl, by rw [List.foldlM_cons, step]; rfl⟩

theorem finds_readTypes : finds.Keeps readTypes w fun t w' => w'.HasRead t := by
  have start : w.ReadInTurns [] {} w := ⟨default, fun some => absurd rfl some, rfl⟩
  unfold readTypes
  refine Keeps.bind_get (Keeps.mono (Keeps.foldlM w.ReadInTurns start fun done r _ t w₁ _ move held => ?_) ?_)
  · exact held.next (looks_of_finds move).1 r
  · rintro t w₁ move ⟨a, found, read⟩
    have program := (looks_of_finds move).1
    exact ⟨a, program ▸ found, program ▸ read⟩

/-- A table that was read has what each declaration adds to it. -/
theorem HasRead.induct {t : TypeTable} (h : w.HasRead t) (inv : List InstRef → TypeTable → Prop) (start : inv [] {})
    (each : ∀ done r rest t plain own members ty, w.program.declarations = done ++ r :: rest → inv done t →
      Ty.ofInstruction t.type? (w.program.inst r) = .ok plain → plain.decorated own members = .ok ty →
      inv (done ++ [r]) (t.register (w.program.inst r).resultId ty)) : inv w.program.declarations t := by
  obtain ⟨a, -, read⟩ := h
  refine except_foldlM_ok inv read start fun done r rest t t' split held step => ?_
  obtain ⟨plain, declared, ty, decorated, -, rfl⟩ := TypeTable.read_ok_iff.mp step
  exact each done r rest t plain _ _ ty split held declared decorated

/-- Where types are known, annotations are. -/
theorem HasRead.annotated {t : TypeTable} (h : w.HasRead t) {v : Value} (known : (t.type? v).isSome = true) :
    w.facts.annotations.isSome = true := by
  obtain ⟨a, found, read⟩ := h
  have some : w.program.declarations ≠ [] := by
    intro none
    rw [none] at read
    obtain rfl := Except.ok.inj read
    cases known
  rw [found some]
  rfl

end BlockTally.Workspace
