import BlockTally.Proofs.Program.Insertion
import BlockTally.Proofs.Program.Linked

/-! Where the ids go that are handed out.

A request that succeeds leaves no id over. Each one that is handed out on the way is the result id of a declaration
that is listed at the end, or it belongs to whoever asked for it. So the bound tells how much was declared, and the
declarations are listed in the order of their ids.
-/

set_option autoImplicit false

namespace BlockTally

/-- Ids are dealt one by one to two lists, from the first one up to the one that would be next. -/
inductive Dealt (first : Int) : List Int → List Int → Int → Prop where
  | none : Dealt first [] [] first
  | left {ids own : List Int} {next : Int} (before : Dealt first ids own next) :
      Dealt first (ids ++ [next]) own (next + 1)
  | right {ids own : List Int} {next : Int} (before : Dealt first ids own next) :
      Dealt first ids (own ++ [next]) (next + 1)

namespace Dealt

variable {first next last : Int} {ids own more further : List Int}

theorem trans (h : Dealt first ids own next) (later : Dealt next more further last) :
    Dealt first (ids ++ more) (own ++ further) last := by
  induction later with
  | none => simpa using h
  | left _ ih => simpa [← List.append_assoc] using ih.left
  | right _ ih => simpa [← List.append_assoc] using ih.right

theorem length (h : Dealt first ids own next) : next = first + ids.length + own.length := by
  induction h with
  | none => simp
  | left _ ih | right _ ih => simp only [List.length_append, List.length_singleton]; omega

/-- The ids that were dealt are those from the first one on. -/
theorem mem_iff (h : Dealt first ids own next) {id : Int} : id ∈ ids ∨ id ∈ own ↔ first ≤ id ∧ id < next := by
  induction h with
  | none => simp only [List.not_mem_nil, or_self, false_iff]; omega
  | left before ih =>
    have length := before.length
    rw [List.mem_append, List.mem_singleton, or_right_comm, ih]
    omega
  | right before ih =>
    have length := before.length
    rw [List.mem_append, List.mem_singleton, ← or_assoc, ih]
    omega

/-- Each of the two lists gets its ids in order. -/
theorem increasing (h : Dealt first ids own next) : ids.Pairwise (· < ·) ∧ own.Pairwise (· < ·) := by
  induction h with
  | none => exact ⟨.nil, .nil⟩
  | left before ih =>
    refine ⟨List.pairwise_append.mpr ⟨ih.1, List.pairwise_singleton .., fun id member last same => ?_⟩, ih.2⟩
    obtain rfl := List.mem_singleton.mp same
    exact (before.mem_iff.mp (.inl member)).2
  | right before ih =>
    refine ⟨ih.1, List.pairwise_append.mpr ⟨ih.2, List.pairwise_singleton .., fun id member last same => ?_⟩⟩
    obtain rfl := List.mem_singleton.mp same
    exact (before.mem_iff.mp (.inr member)).2

end Dealt

namespace Program

variable {p q o : Program} {own more : List Id} {r : InstRef} {i : Instruction} {place : Section}

/-- The ids that are handed out from one program to another are those of new declarations and the given ones. -/
structure Spends (p : Program) (own : List Id) (q : Program) : Prop where
  kept : ∀ r, p.Holds r → q.Holds r ∧ (q.inst r).resultId = (p.inst r).resultId
  dealt : ∃ new, q.module.typesValues = p.module.typesValues ++ new ∧ (∀ r ∈ new, q.Holds r) ∧
    Dealt p.module.idBound (new.map fun r => (q.inst r).resultId) own q.module.idBound

theorem Spends.trans (first : p.Spends own q) (second : q.Spends more o) : p.Spends (own ++ more) o where
  kept r held := by
    obtain ⟨between, same⟩ := first.kept r held
    obtain ⟨last, same'⟩ := second.kept r between
    exact ⟨last, same'.trans same⟩
  dealt := by
    obtain ⟨new, listed, held, dealt⟩ := first.dealt
    obtain ⟨newer, listed', held', dealt'⟩ := second.dealt
    refine ⟨new ++ newer, by rw [listed', listed, List.append_assoc], ?_, ?_⟩
    · exact List.forall_mem_append.mpr ⟨fun r member => (second.kept r (held r member)).1, held'⟩
    · have same : new.map (fun r => (o.inst r).resultId) = new.map fun r => (q.inst r).resultId :=
        List.map_congr_left fun r member => (second.kept r (held r member)).2
      rw [List.map_append, same]
      exact dealt.trans dealt'

theorem Spends.bound_le (h : p.Spends own q) : p.module.idBound ≤ q.module.idBound := by
  obtain ⟨new, -, -, dealt⟩ := h.dealt
  have length := dealt.length
  omega

/-- No id is handed out, and nothing is declared. -/
theorem spends_none (kept : ∀ r, p.Holds r → q.Holds r ∧ (q.inst r).resultId = (p.inst r).resultId)
    (typesValues : q.module.typesValues = p.module.typesValues) (bound : q.module.idBound = p.module.idBound) :
    p.Spends [] q where
  kept := kept
  dealt := ⟨[], by rw [typesValues, List.append_nil], nofun, bound ▸ .none⟩

theorem Spends.refl (p : Program) : p.Spends [] p :=
  spends_none (fun _ held => ⟨held, rfl⟩) rfl rfl

theorem spends_nextBound (p : Program) : p.Spends [p.module.idBound] p.nextBound where
  kept _ held := ⟨held, rfl⟩
  dealt := ⟨[], (List.append_nil _).symm, nofun, .right .none⟩

theorem spends_made (p : Program) (i : Instruction) : p.Spends [] (p.made i) :=
  spends_none (fun r held => ⟨(p.grows_made i).holds held, by rw [inst_made_of_lt i held]⟩) rfl rfl

theorem spends_appended (other : place ≠ .typesValues) (r : InstRef) : p.Spends [] (p.appended place r) := by
  refine spends_none (fun _ held => ⟨held, rfl⟩) ?_ (by cases place <;> rfl)
  cases place <;> first | rfl | exact absurd rfl other

/-- An instruction is made and listed elsewhere than among the declarations. -/
theorem spends_listed (other : place ≠ .typesValues) (i : Instruction) :
    p.Spends [] ((p.made i).appended place ⟨p.instructions.size⟩) :=
  (p.spends_made i).trans (spends_appended other _)

theorem spends_withOperand (r : InstRef) (operand : Operand) : p.Spends [] (p.withOperand r operand) := by
  refine spends_none (fun s held => ⟨Nat.lt_of_lt_of_eq held (p.size_withOperand r operand).symm, ?_⟩) rfl rfl
  obtain ⟨more, same⟩ := p.inst_withOperand_extended r s operand
  rw [same]
  rfl

/-- A declaration takes the next id. -/
theorem spends_declared (result : i.resultId = p.module.idBound) : p.Spends [] (p.declared i) where
  kept r held := ⟨(p.nextBound.grows_made i).holds held, congrArg _ (p.nextBound.inst_made_of_lt i held)⟩
  dealt := by
    refine ⟨[⟨p.instructions.size⟩], rfl, List.forall_mem_singleton.mpr (p.nextBound.holds_made i), ?_⟩
    rw [List.map_singleton, inst_declared, result]
    exact .left .none

theorem Spends.inserted (h : p.Spends own q) (b : BlockRef) (gap : Nat) (refs : List InstRef) :
    p.Spends own (q.inserted b gap refs) := by
  have moved : q.Spends [] (q.inserted b gap refs) := by
    refine spends_none (fun r held => ⟨holds_inserted.mpr held, by rw [inst_inserted]⟩) ?_ ?_ <;> rw [module_inserted]
  exact List.append_nil own ▸ h.trans moved

end Program

end BlockTally
