import BlockTally.Proofs.Program.Insertion
import BlockTally.Proofs.Program.Layout
import BlockTally.Proofs.Program.Pairing

/-! What is written in a module.

The contents of a function and of the sections, without the names of the instructions. Programs that look alike say the
same; and functions whose instructions are paired one by one look alike if they say the same.
-/

set_option autoImplicit false

namespace BlockTally

/-! ### Lists -/

section Lists

variable {α β : Type} {R : α → β → Prop}

theorem forall₂_iff_getElem? {l : List α} {m : List β} : List.Forall₂ R l m ↔
    l.length = m.length ∧ ∀ (k : Nat) (a : α) (b : β), l[k]? = some a → m[k]? = some b → R a b := by
  rw [List.forall₂_iff_get]
  refine and_congr_right fun _ => ⟨fun each k a b left right => ?_, fun each k inside inside' => ?_⟩
  · obtain ⟨inside, rfl⟩ := List.getElem?_eq_some_iff.mp left
    obtain ⟨inside', rfl⟩ := List.getElem?_eq_some_iff.mp right
    exact each k inside inside'
  · exact each k _ _ (List.getElem?_eq_getElem inside) (List.getElem?_eq_getElem inside')

theorem forall₂_append_iff {l l' : List α} {m m' : List β} (length : l.length = m.length) :
    List.Forall₂ R (l ++ l') (m ++ m') ↔ List.Forall₂ R l m ∧ List.Forall₂ R l' m' := by
  induction l generalizing m with
  | nil =>
    obtain rfl := List.length_eq_zero_iff.mp length.symm
    simp
  | cons a l ih =>
    cases m with
    | nil => cases length
    | cons b m => simp [ih (Nat.succ.inj length), and_assoc]

end Lists

namespace Module

/-- The lists outside of functions in layout order: the sections, and the memory model among them. -/
def places : List (Option Section) :=
  [some .capabilities, some .extensions, some .extInstImports, none, some .entryPoints, some .executionModes,
   some .debugs1, some .debugs2, some .debugs3, some .annotations, some .typesValues]

def listed (m : Module) : Option Section → List InstRef
  | some place => m.list place
  | none => m.memoryModel.toList

theorem mem_places (place : Option Section) : place ∈ places := by
  rcases place with _ | place
  · decide
  · cases place <;> decide

theorem globals_eq (m : Module) : m.globals = places.flatMap m.listed := by
  simp [globals, places, listed, list]

theorem listed_subset_globals (m : Module) (place : Option Section) : m.listed place ⊆ m.globals := by
  rw [globals_eq]
  exact fun r member => List.mem_flatMap.mpr ⟨place, mem_places place, member⟩

end Module

@[ext] structure Contents where
  definition : Instruction
  parameters : List Instruction
  /-- Each block with its label and its body. -/
  blocks : List (Instruction × List Instruction)
  endMark : Instruction
  deriving DecidableEq, Repr

namespace Program

variable {p q : Program} {f g : FuncRef}

def contents (p : Program) (f : FuncRef) : Contents where
  definition := p.inst (p.function f).definition
  parameters := (p.function f).parameters.map p.inst
  blocks := (p.function f).blocks.map fun b => (p.inst (p.block b).label, (p.body b).map p.inst)
  endMark := p.inst (p.function f).endMark

structure SameGlobals (p q : Program) : Prop where
  version : q.module.version = p.module.version
  idBound : q.module.idBound = p.module.idBound
  listed : ∀ place, (q.module.listed place).map q.inst = (p.module.listed place).map p.inst

theorem map_functionInsts (p : Program) (f : FuncRef) : (p.functionInsts f).map p.inst =
    (p.contents f).definition :: (p.contents f).parameters ++
      (p.contents f).blocks.flatMap (fun block => block.1 :: block.2) ++ [(p.contents f).endMark] := by
  simp [functionInsts, Program.contents, List.map_flatMap, List.flatMap_map]

/-! ### What looks alike -/

namespace Alike

variable {ρ : Pairing}

theorem written {refs refs' : List InstRef} (h : p.Alike ρ q) (listed : List.Forall₂ ρ.insts refs refs') :
    refs'.map q.inst = refs.map p.inst :=
  h.map id listed

theorem sameGlobals (h : p.Alike ρ q) : p.SameGlobals q where
  version := h.module.version
  idBound := h.module.idBound
  listed place := by
    cases place with
    | none => exact h.written h.module.memoryModel
    | some place => exact h.written (h.module.list place)

/-- The same is written in paired functions. -/
theorem contents (h : p.Alike ρ q) (paired : ρ.functions f g) : q.contents g = p.contents f := by
  have parts := h.function paired
  have blocks : List.Forall₂ Eq (p.contents f).blocks (q.contents g).blocks := by
    refine List.rel_map (fun b c alike => ?_) parts.blocks
    rw [h.inst (h.block alike).label, h.written (h.body alike)]
  rw [List.forall₂_eq_eq_eq] at blocks
  exact Contents.ext (h.inst parts.definition) (h.written parts.parameters) blocks.symm (h.inst parts.endMark)

end Alike

/-! ### What says the same -/

def SameShape (p q : Program) (b c : BlockRef) : Prop :=
  (p.body b).length = (q.body c).length

section Blocks
variable {ρ : Pairing} {blocks blocks' : List BlockRef}

theorem length_flatMap_blockInsts (shapes : List.Forall₂ (SameShape p q) blocks blocks') :
    (blocks.flatMap p.blockInsts).length = (blocks'.flatMap q.blockInsts).length := by
  induction shapes with
  | nil => rfl
  | cons here _ ih =>
    unfold SameShape at here
    simp only [List.flatMap_cons, List.length_append, blockInsts, List.length_cons, ih, here]

theorem blocksAlike_of_flatMap (shapes : List.Forall₂ (SameShape p q) blocks blocks')
    (insts : List.Forall₂ ρ.insts (blocks.flatMap p.blockInsts) (blocks'.flatMap q.blockInsts)) :
    List.Forall₂ (fun b c => BlocksAlike ρ (p.block b) (q.block c)) blocks blocks' := by
  induction shapes with
  | nil => exact .nil
  | cons here _ ih =>
    have length : (p.blockInsts _).length = (q.blockInsts _).length := congrArg Nat.succ here
    obtain ⟨first, others⟩ := (forall₂_append_iff length).mp insts
    obtain ⟨label, body⟩ := List.forall₂_cons.mp first
    exact .cons ⟨label, body⟩ (ih others)

end Blocks

/-- If the instructions of two functions are paired and the same is written in both, their parts are paired. -/
theorem parts_of_functionInsts {ρ : Pairing} (insts : List.Forall₂ ρ.insts (p.functionInsts f) (q.functionInsts g))
    (same : q.contents g = p.contents f) : ρ.insts (p.function f).definition (q.function g).definition ∧
      List.Forall₂ ρ.insts (p.function f).parameters (q.function g).parameters ∧
      List.Forall₂ (fun b c => BlocksAlike ρ (p.block b) (q.block c)) (p.function f).blocks (q.function g).blocks ∧
      ρ.insts (p.function f).endMark (q.function g).endMark := by
  have parameters : (p.function f).parameters.length = (q.function g).parameters.length := by
    simpa [Program.contents] using (congrArg (fun contents => contents.parameters.length) same).symm
  have shapes : List.Forall₂ (SameShape p q) (p.function f).blocks (q.function g).blocks := by
    have written : List.Forall₂ Eq (p.contents f).blocks (q.contents g).blocks := by
      rw [same]
      exact List.forall₂_refl _
    refine (List.forall₂_map_right_iff.mp (List.forall₂_map_left_iff.mp written)).imp fun b c block => ?_
    simpa [SameShape] using congrArg (fun block => block.2.length) block
  rw [functionInsts_eq, functionInsts_eq] at insts
  obtain ⟨front, last⟩ := (forall₂_append_iff (by simp [parameters, length_flatMap_blockInsts shapes])).mp insts
  obtain ⟨head, inner⟩ := (forall₂_append_iff (by simp [parameters])).mp front
  obtain ⟨definition, parameters⟩ := List.forall₂_cons.mp head
  exact ⟨definition, parameters, blocksAlike_of_flatMap shapes inner, (List.forall₂_cons.mp last).1⟩

end Program

end BlockTally
