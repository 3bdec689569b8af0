import BlockTally.Counter.Buffer
import BlockTally.Counter.Labels
import BlockTally.Proofs.Checks

/-! The kinds of errors that checks end in.

Most checks fail only because an operand or a number is not what it should be. Only the taking of an id can run out of
ids: all checks fail for other reasons, if they do.
-/

set_option autoImplicit false

namespace BlockTally

namespace Error

/-- The error is a request that makes no sense as asked. -/
def IsFault : Error → Prop
  | .fault _ => True
  | _ => False

/-- The error tells of the form of the module, or of a promise between the parts of the library. -/
def IsFormal : Error → Prop
  | .illFormed _ | .invariant _ => True
  | _ => False

def IsUnnumbered : Error → Prop
  | .illFormed (.missingFunction _) | .invariant (.unlabeledBlock _) | .invariant (.repeatedLabel _) => True
  | _ => False

def IsRefusal (e : Error) : Prop :=
  e.IsFault ∨ ∃ value type, e = .doesNotFit value type

/-- What is left of the errors once the blocks are numbered: none tells of the form of the module, and if nothing is
missing in it, only ids can run out. -/
def Spared (shaped : Prop) (e : Error) : Prop :=
  ¬e.IsFormal ∧ (shaped → e = .idsExhausted)

theorem spared_idsExhausted (shaped : Prop) : Spared shaped .idsExhausted :=
  ⟨id, fun _ => rfl⟩

theorem IsFault.not_formal {e : Error} (h : e.IsFault) : ¬e.IsFormal := by
  cases e <;> first | exact id | cases h

theorem IsRefusal.not_formal {e : Error} (h : e.IsRefusal) : ¬e.IsFormal := by
  rcases h with fault | ⟨value, type, rfl⟩
  · exact fault.not_formal
  · exact id

end Error

abbrev OnlyFaults {α : Type} (result : Except Error α) : Prop :=
  FailsOnly Error.IsFault result

theorem OnlyFaults.sparesIds {α : Type} {result : Except Error α} (h : OnlyFaults result) : SparesIds result :=
  FailsOnly.sparesIds h id

/-! ### Checks that end in faults -/

open FailsOnly

theorem present_onlyFaults {α : Type} (entry : Option α) (fault : Fault) : OnlyFaults (present entry fault) := by
  unfold present
  cases entry with
  | none => exact error True.intro
  | some a => exact ok a

theorem Value.number_onlyFaults (value : Value) : OnlyFaults value.number :=
  present_onlyFaults _ _

theorem Instruction.value_onlyFaults (i : Instruction) (place : Nat) : OnlyFaults (i.value place) := by
  unfold Instruction.value
  split
  · exact ok _
  · exact error True.intro

theorem Instruction.value_isOk {i : Instruction} {place : Nat} (inside : place < i.operands.length) :
    ∃ value, i.value place = .ok value := by
  unfold value
  rw [List.getElem?_eq_getElem inside]
  exact ⟨_, rfl⟩

namespace Ty

theorem text_onlyFaults (ty : Ty) : OnlyFaults ty.text := by
  unfold text
  split
  · exact ok _
  · exact error True.intro

theorem readWrap_onlyFaults (known : Value → Option Ty) (i : Instruction) (place : Nat)
    {form : Except Error Wrapper} (wrapper : OnlyFaults form) : OnlyFaults (readWrap known i place form) := by
  unfold readWrap
  apply (i.value_onlyFaults place).bind
  intro v
  split
  · exact ok _
  · exact wrapper.bind fun _ => ok _

theorem read_onlyFaults (known : Value → Option Ty) (i : Instruction) : OnlyFaults (read? known i) := by
  have operand (place : Nat) := i.value_onlyFaults place
  unfold read?
  refine ite (ok _) (ite (ok _) (ite ?_ (ite ?_ (ite ?_ (ite ?_ (ite ?_ (ite ?_ (ite ?_ (ite ?_ (ite ?_ ?_))))))))))
  · exact (operand 0).bind fun _ => (operand 1).bind fun _ => ok _
  · exact (operand 0).bind fun _ => ok _
  · exact readWrap_onlyFaults known i 0 ((operand 1).map _)
  · exact readWrap_onlyFaults known i 0 ((operand 1).map _)
  · exact readWrap_onlyFaults known i 0 ((operand 1).map _)
  · exact readWrap_onlyFaults known i 0 (ok _)
  · exact readWrap_onlyFaults known i 1 ((operand 0).map _)
  · exact ok _
  · split
    · exact ok _
    · exact error True.intro
    · exact ok _
  · exact ok _

theorem ofInstruction_onlyFaults (known : Value → Option Ty) (i : Instruction) :
    OnlyFaults (ofInstruction known i) :=
  (read_onlyFaults known i).bind fun _ => ok _

theorem checkStorage_onlyFaults (ty : Ty) : OnlyFaults ty.checkStorage := by
  unfold checkStorage
  split
  next storage _ _ => exact (Value.number_onlyFaults storage).bind fun _ => ok _
  · exact ok _

theorem decorated_onlyFaults (ty : Ty) (own members : List Decoration) : OnlyFaults (ty.decorated own members) := by
  have sorted (ds : List Decoration) : OnlyFaults (Decoration.sort ds) := by
    unfold Decoration.sort
    split
    · exact ok _
    · exact error True.intro
  unfold decorated
  apply (sorted own).bind
  intro ds
  dsimp only
  split
  · exact (sorted members).bind fun _ => ok _
  · exact ok _

end Ty

theorem Annotations.analyze_onlyFaults (p : Program) (a : Annotations) (r : InstRef) :
    OnlyFaults (a.analyze p r) := by
  unfold analyze
  split
  · exact ((p.inst r).value_onlyFaults 0).bind fun _ => ok _
  · exact ok _

theorem Annotations.ofProgram_onlyFaults (p : Program) : OnlyFaults (ofProgram p) :=
  FailsOnly.foldlM (analyze_onlyFaults p) _ _

theorem Features.ofProgram_onlyFaults (p : Program) : OnlyFaults (ofProgram p) := by
  have named (opcode : Opcode) (refs : List InstRef) : OnlyFaults (named p opcode refs) :=
    (FailsOnly.mapM (fun r => (p.inst r).value_onlyFaults 0) _).bind fun _ => ok _
  exact (named _ _).bind fun _ => (named _ _).bind fun _ => ok _

theorem Workspace.anyNames_onlyFaults (p : Program) (target : Value) (refs : List InstRef) :
    OnlyFaults (anyNames p target refs) := by
  induction refs with
  | nil => exact ok _
  | cons r rest ih =>
    unfold anyNames
    split
    · apply ((p.inst r).value_onlyFaults 0).bind
      intro v
      split
      · exact ok _
      · exact ih
    · exact ih

theorem Program.callees_onlyFaults (p : Program) (f : FuncRef) : OnlyFaults (p.callees f) :=
  FailsOnly.mapM (fun r => (p.inst r).value_onlyFaults 0) _

/-- A tour is not begun only if an operand is missing. -/
theorem Program.entryTour_onlyFaults (p : Program) : OnlyFaults p.entryTour := by
  apply (FailsOnly.mapM (fun r => (p.inst r).value_onlyFaults 1) _).bind
  intro roots
  refine FailsOnly.bind (FailsOnly.foldlM (fun calls f => ?_) _ _) fun _ => ok _
  exact (p.callees_onlyFaults f).bind fun _ => ok _

/-! ### Other checks -/

theorem OnlyFaults.or {α : Type} {result : Except Error α} {kind : Error → Prop} (h : OnlyFaults result) :
    FailsOnly (fun e => e.IsFault ∨ kind e) result :=
  h.mono fun _ => .inl

namespace Workspace

theorem atomDeclaration_failsOnly (form : Atom) (ds : List Decoration) :
    FailsOnly (fun e => e.IsFault ∨ e.IsFormal) (atomDeclaration form ds) := by
  unfold atomDeclaration
  split
  · exact ok _
  · exact (Ty.text_onlyFaults _).or.then_error fun _ => .inr True.intro

theorem checkRange_failsOnly (ty : Ty) (value : Value) : FailsOnly Error.IsRefusal (checkRange ty value) := by
  have fault {cause : Fault} : FailsOnly Error.IsRefusal (.error (.fault cause) : Except Error Unit) :=
    error (.inl True.intro)
  have misfit (ty : Ty) : FailsOnly Error.IsRefusal
      (ty.text >>= fun text => (throw (.doesNotFit value text) : Except Error Unit)) :=
    (Ty.text_onlyFaults ty).or.then_error fun text => .inr ⟨value, text, rfl⟩
  unfold checkRange
  split
  · split
    · exact fault
    · exact misfit _
    · exact fault
    · exact fault
    · exact ite (ok _) (misfit _)
  · exact ok _

theorem atomDeclaration_sparesIds (form : Atom) (ds : List Decoration) : SparesIds (atomDeclaration form ds) :=
  (atomDeclaration_failsOnly form ds).sparesIds (by simp [Error.IsFault, Error.IsFormal])

theorem checkRange_sparesIds (ty : Ty) (value : Value) : SparesIds (checkRange ty value) :=
  (checkRange_failsOnly ty value).sparesIds (by simp [Error.IsRefusal, Error.IsFault])

end Workspace

namespace Program

/-- Blocks are not numbered if an operand is missing, a function is, or a label is no label of its own. -/
theorem blockLabels_failsOnly (p : Program) : FailsOnly (fun e => e.IsFault ∨ e.IsUnnumbered) p.blockLabels := by
  have labeled (labels : Labels) (f : FuncRef) :
      FailsOnly (fun e => e.IsFault ∨ e.IsUnnumbered) (p.labelFunction labels f) := by
    refine FailsOnly.foldlM (fun labels b => ?_) _ _
    exact ite (error (.inr True.intro)) (ite (error (.inr True.intro)) (ok _))
  apply p.entryTour_onlyFaults.or.bind
  intro tour
  apply (FailsOnly.foldlM labeled _ _).bind
  intro last
  split
  · exact error (.inr True.intro)
  · exact ok _

theorem blockLabels_sparesIds (p : Program) : SparesIds p.blockLabels :=
  p.blockLabels_failsOnly.sparesIds (by simp [Error.IsFault, Error.IsUnnumbered])

end Program

end BlockTally
