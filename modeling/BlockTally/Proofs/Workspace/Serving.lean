import BlockTally.Proofs.Workspace.Reflection
import BlockTally.Proofs.Workspace.Safety

/-! Requests that are served.

Once the tables are found, a request for a type that can be declared is served until the ids run out, and so is one for
a constant in its range. What the tables said before they say afterwards. If they reflect the program, they go on to.
-/

set_option autoImplicit false

namespace BlockTally

/-! ### Types that can be declared -/

namespace Decoration

def Attachable (ds : List Decoration) : Prop :=
  Settled ds ∧ ∀ d ∈ ds, d.Numbered

/-- Decorations of members have the number of the member in front. -/
def AttachableToMembers (ds : List Decoration) : Prop :=
  Settled ds ∧ ∀ d ∈ ds, Numbered d.tail

theorem attachable_nil : Attachable [] :=
  ⟨settled_nil, nofun⟩

theorem attachableToMembers_nil : AttachableToMembers [] :=
  ⟨settled_nil, nofun⟩

end Decoration

namespace Ty

mutual

/-- The type is made up of declared parts, with decorations that can be attached. The atoms have none. -/
def Declarable : Ty → Prop
  | .atom form ds => (∃ declaration, atomDeclaration? form = some declaration) ∧ ds = []
  | .wrap form component ds => form.Formed ∧ Declarable component ∧ Decoration.Attachable ds
  | .struct members mds ds =>
      AllDeclarable members ∧ Decoration.AttachableToMembers mds ∧ Decoration.Attachable ds
  | .function result parameters ds => Declarable result ∧ AllDeclarable parameters ∧ Decoration.Attachable ds

def AllDeclarable : List Ty → Prop
  | [] => True
  | ty :: rest => Declarable ty ∧ AllDeclarable rest

end

theorem Declarable.attachable {ty : Ty} (h : ty.Declarable) : Decoration.Attachable ty.decorations := by
  cases ty with
  | atom => exact h.2 ▸ Decoration.attachable_nil
  | wrap | struct | function => exact h.2.2

theorem Declarable.attachable_members {ty : Ty} (h : ty.Declarable) :
    Decoration.AttachableToMembers ty.memberDecorations := by
  cases ty with
  | struct => exact h.2.1
  | atom | wrap | function => exact Decoration.attachableToMembers_nil

mutual

/-- Whether a type can be declared does not depend on the spelling of storage classes. -/
theorem declarable_key : (ty : Ty) → (ty.key.Declarable ↔ ty.Declarable)
  | .atom .. => by simp only [key]
  | .wrap form component _ => by simp only [key, Declarable, form.formed_plain, declarable_key component]
  | .struct members _ _ => by simp only [key, Declarable, allDeclarable_keys members]
  | .function result parameters _ => by
      simp only [key, Declarable, declarable_key result, allDeclarable_keys parameters]

theorem allDeclarable_keys : (tys : List Ty) → (AllDeclarable (keys tys) ↔ AllDeclarable tys)
  | [] => Iff.rfl
  | ty :: rest => by simp only [keys, AllDeclarable, declarable_key ty, allDeclarable_keys rest]

end

theorem Declarable.of_key {ty other : Ty} (h : ty.Declarable) (same : other.key = ty.key) : other.Declarable :=
  (declarable_key other).mp (same ▸ (declarable_key ty).mpr h)

def Bare : Ty → Prop
  | .atom _ ds => ds = []
  | _ => True

theorem Declarable.bare {ty : Ty} (h : ty.Declarable) : ty.Bare := by
  cases ty with
  | atom => exact h.2
  | wrap | struct | function => exact True.intro

def Registered (known : Value → Option Ty) (i : Instruction) : Prop :=
  ∃ ty, known (.int i.resultId) = some ty ∧ ty.Bare ∧ Describes known i ty

theorem Registered.later {known known' : Value → Option Ty} {i : Instruction} (h : Registered known i)
    (more : ∀ v ty, known v = some ty → known' v = some ty) : Registered known' i := by
  obtain ⟨ty, found, bare, describes⟩ := h
  exact ⟨ty, more _ _ found, bare, describes.mono more⟩

end Ty

/-- The instruction that declares a type has nothing that edits read. -/
theorem Instruction.complete_of_declaresType {i : Instruction} (declares : i.opcode.declaresType = true) :
    i.Complete := by
  intro read
  simp only [List.mem_cons, List.not_mem_nil, or_false] at read
  rcases read with same | same | same | same | same <;> rw [same] at declares <;> cases declares

/-- A module whose tables can be found, and what they are then known to say. -/
structure Program.Legible (shaped typed : Prop) (p : Program) : Prop where
  positive : 0 < p.module.idBound
  distinct : (p.idsOf p.declarations).Nodup
  below : ∀ id ∈ p.idsOf p.declarations, id < p.module.idBound
  complete : shaped → p.Complete
  readable : shaped → ∃ t, p.typeTable = .ok t
  entries : typed → ∀ r ∈ p.module.entryPoints, p.Holds r
  numbered : typed → p.TypesNumbered
  unsigned : typed → p.UnsignedDistinct
  fixed : typed → ∀ r ∈ p.module.typesValues,
    (p.inst r).opcode.declaresType = true ∨ (p.inst r).opcode = .constant → p.Fixes (p.inst r)

/-- In a well-formed program the types have different ids, all of them below the bound. -/
theorem Program.WellFormed.declarations {p : Program} (h : p.WellFormed) :
    (p.idsOf p.declarations).Nodup ∧ ∀ id ∈ p.idsOf p.declarations, id < p.module.idBound := by
  have part : List.Sublist (p.idsOf p.declarations) p.resultIds :=
    p.idsOf_sublist (List.filter_sublist.trans p.typesValues_sublist)
  exact ⟨h.distinct.sublist part, fun id member => (h.bounded id (part.subset member)).2⟩

/-- What is put into a block declares nothing. -/
theorem Program.Introduces.inserted {p q : Program} {allowed : Instruction → Prop} (h : p.Introduces q allowed)
    (b : BlockRef) (gap : Nat) (refs : List InstRef) : p.Introduces (q.inserted b gap refs) allowed := by
  simpa only [Introduces, module_inserted, inst_inserted, holds_inserted] using h

namespace Workspace

open Change

/-! ### Steady workspaces -/

/-- The tables are found and agree with the ids of the program. If the module is shaped nothing is missing in it, and
if it is typed the tables reflect it. -/
structure Steady (shaped typed : Prop) (t : TypeTable) (w : Workspace) : Prop where
  positive : 0 < w.program.module.idBound
  types : w.facts.types = some t
  below : t.Sound (· < w.program.module.idBound)
  constants : ∃ c, w.facts.constants = some c ∧ (typed → c.Reflects w.program t.type?)
  complete : shaped → w.program.Complete
  entries : typed → ∀ r ∈ w.program.module.entryPoints, w.program.Holds r
  reflects : typed → t.Reflects w.program

/-- The workspace stays steady, with a table that knows more, though no type larger than the size. If the module is
typed the table knows the types that are declared. -/
structure Serves (shaped typed : Prop) (size : Nat) (t : TypeTable) (w : Workspace) (t' : TypeTable)
    (w' : Workspace) : Prop where
  steady : w'.Steady shaped typed t'
  program : w.program.Extends w'.program
  types : t.Extends size t'
  introduces : typed → w.program.Introduces w'.program (Ty.Registered t'.type?)

variable {shaped typed : Prop} {t t' t'' : TypeTable} {w w' w'' : Workspace} {size : Nat}

theorem Steady.retained (h : w.Steady shaped typed t) (kept : Retains shaped w w') : w'.Steady shaped typed t where
  positive := Int.lt_of_lt_of_le h.positive kept.program.module.bound_le
  types := kept.types.trans h.types
  below := h.below.mono fun _ _ below => Int.lt_of_lt_of_le below kept.program.module.bound_le
  constants := by
    obtain ⟨c, found, reflects⟩ := h.constants
    refine ⟨c, kept.constants.trans found, fun assumed => ?_⟩
    exact (reflects assumed).later kept.program.toGrows fun _ _ known => known
  complete assumed := kept.complete assumed (h.complete assumed)
  entries assumed r entry := kept.program.holds (h.entries assumed r (kept.program.module.entryPoints ▸ entry))
  reflects assumed := (h.reflects assumed).of_grows kept.program.toGrows

theorem Steady.edited (h : w.Steady shaped typed t) (edited : Edited shaped w w') : w'.Steady shaped typed t :=
  h.retained edited.toRetains

/-- What is put into a block is of no interest to the tables. -/
theorem Steady.inserted (h : w.Steady shaped typed t) (b : BlockRef) (gap : Nat) (refs : List InstRef) :
    (w.inserted b gap refs).Steady shaped typed t := by
  have same : (w.inserted b gap refs).program.module = w.program.module := Program.module_inserted
  constructor
  case positive => exact same ▸ h.positive
  case types => exact h.types
  case below => exact same ▸ h.below
  case constants =>
    obtain ⟨c, found, reflects⟩ := h.constants
    refine ⟨c, found, fun assumed ty value id known => ?_⟩
    exact Program.fixesConstant_inserted.mpr (reflects assumed ty value id known)
  case complete =>
    intro assumed r member
    obtain ⟨held, complete⟩ := h.complete assumed r (same ▸ member)
    exact ⟨Program.holds_inserted.mpr held, by rwa [Workspace.inserted, Program.inst_inserted]⟩
  case entries => exact fun assumed r entry => Program.holds_inserted.mpr (h.entries assumed r (same ▸ entry))
  case reflects => exact fun assumed => (h.reflects assumed).inserted b gap refs

namespace Serves

theorem refl (h : w.Steady shaped typed t) : Serves shaped typed size t w t w :=
  ⟨h, .refl _, .refl size t, fun _ => .of_same rfl⟩

theorem trans (first : Serves shaped typed size t w t' w') (second : Serves shaped typed size t' w' t'' w'') :
    Serves shaped typed size t w t'' w'' where
  steady := second.steady
  program := first.program.trans second.program
  types := first.types.trans second.types
  introduces assumed := ((first.introduces assumed).mono fun _ known => known.later second.types.types).trans
    second.program.toGrows (second.introduces assumed)

theorem mono {larger : Nat} (h : Serves shaped typed size t w t' w') (le : size ≤ larger) :
    Serves shaped typed larger t w t' w' :=
  { h with types := h.types.mono le }

theorem of_edited (h : w.Steady shaped typed t) (edited : Edited shaped w w') : Serves shaped typed size t w t w' :=
  ⟨h.edited edited, edited.program, .refl size t, fun _ => edited.introduces.mono fun _ => False.elim⟩

end Serves

/-- What is known under an id stays known. -/
theorem KnownAs.later {id : Id} {ty : Ty} (h : Ty.KnownAs t.type? id ty) (more : t.Extends size t') :
    Ty.KnownAs t'.type? id ty := by
  obtain ⟨ty', found, same⟩ := h
  exact ⟨ty', more.types _ _ found, same⟩

/-- An edit, followed by a request. -/
theorem safe_edit {α β : Type} {change : Action α} {next : α → Action β} {post : β → Workspace → Prop}
    (steady : w.Steady shaped typed t) (first : Edits shaped change w)
    (rest : ∀ a w', Edited shaped w w' → Safe shaped (next a) w' post) : Safe shaped (change >>= next) w post :=
  Safe.bind (first steady.complete) rest

theorem after_needTypes_known {good : TypeTable → Workspace → Prop} {bad : Error → Workspace → Prop}
    (known : w.facts.types = some t) (h : good t w) : After needTypes w good bad := by
  unfold needTypes
  apply After.bind_get
  rw [known]
  exact After.pure h

theorem after_needConstants_known {c : ConstantTable} {good : ConstantTable → Workspace → Prop}
    {bad : Error → Workspace → Prop} (known : w.facts.constants = some c) (h : good c w) :
    After needConstants w good bad := by
  unfold needConstants
  apply After.bind_get
  rw [known]
  exact After.pure h

/-! ### Finding the tables -/

/-- Reading the types fails with faults only. -/
theorem safe_readTypes : Safe False readTypes w fun _ _ => True := by
  unfold readTypes
  apply After.bind_get
  refine After.foldlM (fun _ _ _ => True) True.intro fun _ r _ t w' _ _ => ?_
  have sparing {α : Type} {result : Except Error α} (kind : OnlyFaults result) (w : Workspace) :=
    safe_check (s := w) (fun e failed => (kind e failed).not_formal) False.elim
  unfold readType
  apply After.bind_get
  refine Safe.bind (sparing (Ty.ofInstruction_onlyFaults _ _) w') fun _ w₁ _ => ?_
  refine Safe.bind (edits_needAnnotations False.elim) fun _ w₂ _ => ?_
  refine Safe.bind (sparing (Ty.decorated_onlyFaults _ _ _) w₂) fun ty w₃ _ => ?_
  exact Safe.bind (sparing ty.checkStorage_onlyFaults w₃) fun _ _ _ => After.pure True.intro

/-- Once the tables are found in a legible module, the workspace is steady. -/
theorem safe_needConstants_fresh (fresh : w.facts = {}) (legible : w.program.Legible shaped typed) :
    Safe shaped needConstants w fun _ w' => w'.program = w.program ∧
      ∃ t, w.program.typeTable = .ok t ∧ w'.Steady shaped typed t := by
  obtain ⟨p, facts⟩ := w
  obtain rfl : facts = {} := fresh
  change p.Legible shaped typed at legible
  have found := (after_readTypes (current_forgotten p)).and safe_readTypes
  unfold needConstants needTypes
  refine After.bind_get (After.bind (After.bind_get (After.bind (After.mono found (fun t w held => ?_) ?_))))
  · obtain ⟨⟨read, same⟩, -⟩ := held
    have program : w.program = p := by rcases same with rfl | ⟨a, -, rfl⟩ <;> rfl
    refine After.bind (After.modify (After.pure (After.bind_get (After.bind (After.modify (After.pure ?_))))))
    change w.program = p ∧ _
    refine ⟨program, t, read, ?_⟩
    have sound := (Program.sound_of_typeTable legible.distinct read).mono fun id _ known => legible.below id known
    rw [← program] at legible sound read
    refine ⟨legible.positive, rfl, sound, ⟨_, rfl, fun assumed => ?_⟩, legible.complete, legible.entries,
      fun assumed => ?_⟩
    · exact Program.reflects_of_readConstants (fun r member constant =>
        legible.fixed assumed r member (.inr constant)) t
    · refine Program.reflects_of_typeTable legible.distinct (legible.numbered assumed) (legible.unsigned assumed)
        (fun r member => ?_) read
      obtain ⟨listed, declares⟩ := List.mem_filter.mp member
      exact legible.fixed assumed r listed (.inl declares)
  · rintro e w' ⟨unread, formal, -⟩
    refine ⟨formal, fun assumed => ?_⟩
    -- In a shaped module the types can be read, so the reading did not fail.
    obtain ⟨t, read⟩ := legible.readable assumed
    exact absurd read (unread t)

/-! ### Types -/

/-- The new id is not known before. -/
theorem Steady.fresh (h : w.Steady shaped typed t) : t.type? (.int w.program.module.idBound) = none := by
  by_contra found
  obtain ⟨ty, found⟩ := Option.ne_none_iff_exists'.mp found
  exact Int.lt_irrefl _ (h.below.ids _ _ found (Int.ne_of_gt h.positive))

def registered (w : Workspace) (t : TypeTable) : Workspace :=
  { w with facts := { w.facts with types := some t } }

/-- A new declaration was made and annotated; now the table is told of it. -/
theorem Serves.registered {i : Instruction} {ty : Ty} {uses : Option Uses} (h : w.Steady shaped typed t)
    (free : w.program.module.idBound < maxIdBound) (result : i.resultId = w.program.module.idBound)
    (complete : i.Complete)
    (edited : Edited shaped { program := w.program.declared i, facts := { w.facts with uses } } w')
    (describes : Ty.Describes t.type? i ty) (bare : ty.Bare) (absent : typed → t.byType.get? ty.key = none) :
    Serves shaped typed ty.size t w (t.register i.resultId ty) (w'.registered (t.register i.resultId ty)) := by
  have declared : Retains shaped w { program := w.program.declared i, facts := { w.facts with uses } } :=
    .declared free complete uses
  have whole := declared.trans edited.toRetains
  have steady := h.retained whole
  -- The id was not below the bound, so nothing is known under it.
  have fresh : t.type? (.int i.resultId) = none := by
    rw [result]
    exact h.fresh
  have extends' : t.Extends ty.size (t.register i.resultId ty) := .register fresh
  refine ⟨⟨steady.positive, rfl, ?_, ?_, steady.complete, steady.entries, fun assumed => ?_⟩, whole.program, extends',
    fun assumed => ?_⟩
  · refine (steady.below.register ty fun _ => fresh).mono fun id _ known => ?_
    rcases known with below | rfl
    · exact below
    · rw [result]
      exact Int.lt_of_lt_of_le (Int.lt_succ _) edited.program.module.bound_le
  · obtain ⟨c, found, reflects⟩ := steady.constants
    exact ⟨c, found, fun assumed => (reflects assumed).later (.refl _) extends'.types⟩
  · have fixed : (w.program.declared i).Fixes i := Program.fixes_declared i (h.entries assumed)
    refine (steady.reflects assumed).register ?_ fresh (absent assumed) (fixed.of_grows edited.program.toGrows)
      describes
    rw [result]
    exact Int.ne_of_gt h.positive
  · have known : Ty.Registered (t.register i.resultId ty).type? i :=
      ⟨ty, by rw [TypeTable.type?_register, if_pos rfl], bare, describes.mono extends'.types⟩
    have new : w.program.Introduces (w.program.declared i) (Ty.Registered (t.register i.resultId ty).type?) :=
      .declared fun _ => ⟨h.entries assumed, known⟩
    exact new.trans edited.program.toGrows (edited.introduces.mono fun _ => False.elim)

theorem edits_decorations {id : Value} {ds : List Decoration} (numbered : ∀ d ∈ ds, d.Numbered) :
    Edits shaped (ds.forM fun d => discard <| decorate id d) w :=
  Edits.forM fun d member _ _ => (edits_decorate id (numbered d member)).discard

theorem edits_memberDecorations {id : Value} {ds : List Decoration} (numbered : ∀ d ∈ ds, Decoration.Numbered d.tail) :
    Edits shaped (ds.forM fun d => discard <| decorateMember id d) w := by
  refine Edits.forM fun d member w' _ => ?_
  have tail := numbered d member
  cases d with
  | nil => cases tail
  | cons member d => exact (edits_decorateMember id tail).discard

theorem safe_declareNew {ty : Ty} {declaration : Opcode × List Operand} (steady : w.Steady shaped typed t)
    (declarable : ty.Declarable) (absent : typed → t.byType.get? ty.key = none)
    (spells : Ty.Spells t.type? declaration ty) :
    Safe shaped (declareNew ty declaration) w fun id w' =>
      ∃ t', Serves shaped typed ty.size t w t' w' ∧ id ≠ 0 ∧ Ty.KnownAs t'.type? id ty := by
  unfold declareNew
  refine After.bind (after_takeId (fun _ => Error.spared_idsExhausted shaped) fun free => ?_)
  have nonzero : w.program.module.idBound ≠ 0 := Int.ne_of_gt steady.positive
  rw [if_neg nonzero]
  refine After.bind (after_newInst (After.bind (after_addGlobal fun uses => ?_)))
  let i : Instruction :=
    { opcode := declaration.1, resultId := w.program.module.idBound, operands := declaration.2 }
  let w₁ : Workspace := { program := w.program.declared i, facts := { w.facts with uses } }
  have complete : i.Complete := Instruction.complete_of_declaresType spells.declares
  -- What follows the declaration are edits, until the table is told of the type.
  have retained : Retains shaped w w₁ := .declared free complete uses
  have steady₁ := steady.retained retained
  refine safe_edit steady₁ edits_needAnnotations.discard fun _ w₂ edited₂ => ?_
  refine safe_edit (steady₁.edited edited₂) (edits_decorations declarable.attachable.2) fun _ w₃ edited₃ => ?_
  have edited := edited₂.trans edited₃
  refine safe_edit (steady₁.edited edited) (edits_memberDecorations declarable.attachable_members.2)
    fun _ w₄ edited₄ => ?_
  have edited := edited.trans edited₄
  unfold registerType
  refine After.bind (After.bind (after_needTypes_known (steady₁.edited edited).types (After.modify (After.pure ?_))))
  refine ⟨_, .registered steady free rfl complete edited (spells.describes _) declarable.bare absent, nonzero, ty, ?_,
    rfl⟩
  rw [TypeTable.type?_register, if_pos rfl]

/-- A type is known, or it is declared, not being in the table if that reflects the program. -/
theorem safe_known {ty : Ty} {make : Action Id} (steady : w.Steady shaped typed t)
    (making : (typed → t.byType.get? ty.key = none) → Safe shaped make w fun id w' =>
      ∃ t', Serves shaped typed ty.size t w t' w' ∧ id ≠ 0 ∧ Ty.KnownAs t'.type? id ty) :
    Safe shaped (known ty make) w fun id w' =>
      ∃ t', Serves shaped typed ty.size t w t' w' ∧ id ≠ 0 ∧ Ty.KnownAs t'.type? id ty := by
  unfold known
  refine After.bind (after_needTypes_known steady.types ?_)
  dsimp only
  split
  next result =>
    obtain ⟨-, ty', found, same⟩ := steady.below.of_id result
    exact After.pure ⟨t, .refl steady, result, ty', found, same⟩
  next zero =>
    -- The table hands out no id, so there is no entry if it reflects the program.
    refine making fun assumed => ?_
    by_contra found
    obtain ⟨entry, found⟩ := Option.ne_none_iff_exists'.mp found
    refine zero ?_
    rw [TypeTable.id, found]
    exact (steady.reflects assumed).numbered _ _ found

/-- The components were served, so the whole type is still not in the table. -/
theorem safe_declareAfter {ty : Ty} {declaration : Opcode × List Operand} (served : Serves shaped typed size t w t' w')
    (smaller : size < ty.size) (declarable : ty.Declarable) (absent : typed → t.byType.get? ty.key = none)
    (spells : Ty.Spells t'.type? declaration ty) :
    Safe shaped (declareNew ty declaration) w' fun id w'' =>
      ∃ t'', Serves shaped typed ty.size t w t'' w'' ∧ id ≠ 0 ∧ Ty.KnownAs t''.type? id ty := by
  have absent' (assumed : typed) := served.types.absent (absent assumed) smaller
  refine (safe_declareNew served.steady declarable absent' spells).mono fun id w'' held => ?_
  obtain ⟨t'', serves, rest⟩ := held
  exact ⟨t'', (served.mono (Nat.le_of_lt smaller)).trans serves, rest⟩

mutual

/-- A request for a type that can be declared is served until the ids run out. -/
theorem safe_typeId : (ty : Ty) → {w : Workspace} → {t : TypeTable} → w.Steady shaped typed t → ty.Declarable →
    Safe shaped (typeId ty) w fun id w' =>
      ∃ t', Serves shaped typed ty.size t w t' w' ∧ id ≠ 0 ∧ Ty.KnownAs t'.type? id ty
  | .atom form ds, w, t, steady, declarable => by
      unfold typeId
      refine safe_known steady fun absent => ?_
      obtain ⟨declaration, found⟩ := declarable.1
      have passed : atomDeclaration form ds = .ok declaration := by
        unfold atomDeclaration
        rw [found]
      rw [passed]
      exact safe_declareNew steady declarable absent (Ty.spells_atom declarable.attachable.1 found)
  | .wrap form component ds, w, t, steady, declarable => by
      unfold typeId
      refine safe_known steady fun absent => ?_
      -- The component is smaller, so its request cannot have declared the type itself.
      refine Safe.bind (safe_typeId component steady declarable.2.1) fun id w₁ held => ?_
      obtain ⟨t₁, served, -, inner⟩ := held
      exact safe_declareAfter served (Nat.lt_succ_self _) declarable absent
        (Ty.spells_wrap declarable.1 declarable.2.2.1 inner)
  | .struct members mds ds, w, t, steady, declarable => by
      unfold typeId
      refine safe_known steady fun absent => ?_
      refine Safe.bind (safe_typeIds members steady declarable.1) fun ids w₁ held => ?_
      obtain ⟨t₁, served, inner⟩ := held
      exact safe_declareAfter served (Nat.lt_succ_self _) declarable absent
        (Ty.spells_struct declarable.2.2.1 declarable.2.1.1 inner)
  | .function result parameters ds, w, t, steady, declarable => by
      unfold typeId
      refine safe_known steady fun absent => ?_
      refine Safe.bind (safe_typeId result steady declarable.1) fun id w₁ held => ?_
      obtain ⟨t₁, served₁, -, first⟩ := held
      refine Safe.bind (safe_typeIds parameters served₁.steady declarable.2.1) fun ids w₂ held => ?_
      obtain ⟨t₂, served₂, others⟩ := held
      have both := (served₁.mono (Nat.le_add_right _ _)).trans (served₂.mono (Nat.le_add_left _ _))
      exact safe_declareAfter both (Nat.lt_succ_self _) declarable absent
        (Ty.spells_function declarable.2.2.1 (.cons (KnownAs.later first served₂.types) others))

theorem safe_typeIds : (tys : List Ty) → {w : Workspace} → {t : TypeTable} → w.Steady shaped typed t →
    Ty.AllDeclarable tys → Safe shaped (typeIds tys) w fun ids w' =>
      ∃ t', Serves shaped typed (Ty.sizes tys) t w t' w' ∧ List.Forall₂ (Ty.KnownAs t'.type?) ids tys
  | [], w, t, steady, _ => After.pure ⟨t, .refl steady, .nil⟩
  | ty :: rest, w, t, steady, declarable => by
      unfold typeIds
      refine Safe.bind (safe_typeId ty steady declarable.1) fun id w₁ held => ?_
      obtain ⟨t₁, served₁, -, first⟩ := held
      refine Safe.bind (safe_typeIds rest served₁.steady declarable.2) fun ids w₂ held => ?_
      obtain ⟨t₂, served₂, others⟩ := held
      refine After.pure ⟨t₂, (served₁.mono (Nat.le_add_right _ _)).trans (served₂.mono (Nat.le_add_left _ _)), ?_⟩
      exact .cons (KnownAs.later first served₂.types) others

end

theorem safe_typeOf {id : Id} {ty : Ty} (steady : w.Steady shaped typed t) (known : Ty.KnownAs t.type? id ty) :
    Safe shaped (typeOf (.int id)) w fun answer w' => w' = w ∧ answer.key = ty.key := by
  obtain ⟨ty', found, same⟩ := known
  unfold typeOf
  refine After.bind (after_needTypes_known steady.types ?_)
  rw [found]
  exact After.pure ⟨rfl, same⟩

/-- A pointer type is served for what an id is known as. -/
theorem safe_pointerId {id : Id} {ty : Ty} {storage : Int} (steady : w.Steady shaped typed t)
    (declarable : ty.Declarable) (known : Ty.KnownAs t.type? id ty) :
    Safe shaped (pointerId (.int id) (.int storage)) w fun answer w' => ∃ t' size,
      Serves shaped typed size t w t' w' ∧ answer ≠ 0 ∧
        Ty.KnownAs t'.type? answer (.pointer ty (.int storage)) := by
  unfold pointerId
  refine Safe.bind (safe_typeOf steady known) fun pointee w' held => ?_
  obtain ⟨rfl, same⟩ := held
  have pointer : (Ty.pointer pointee (.int storage)).Declarable :=
    ⟨⟨storage, rfl⟩, declarable.of_key same, Decoration.attachable_nil⟩
  refine (safe_typeId _ steady pointer).mono fun answer w₁ held => ?_
  -- The pointer was asked for with the type that the id is known as, which is like the given one.
  obtain ⟨t', served, nonzero, ty', found, key⟩ := held
  refine ⟨t', _, served, nonzero, ty', found, key.trans ?_⟩
  simp only [Ty.pointer, Ty.key, same]

/-! ### Constants -/

/-- A request for a constant is served if the value is in range. -/
theorem safe_constantId {ty : Ty} {value : Value} (steady : w.Steady shaped typed t) (declarable : ty.Declarable)
    (range : shaped → checkRange ty value = .ok ()) :
    Safe shaped (constantId ty value) w fun id w' => ∃ t', Serves shaped typed ty.size t w t' w' ∧
      (typed → w'.program.FixesConstant t'.type? id ty value) := by
  obtain ⟨c, found, reflects⟩ := steady.constants
  unfold constantId
  refine After.bind (after_needConstants_known found ?_)
  have checked := safe_check (s := w) (fun e failed => (checkRange_failsOnly ty value e failed).not_formal)
    fun assumed => ⟨(), range assumed⟩
  refine Safe.bind checked fun _ w' held => ?_
  obtain ⟨-, rfl⟩ := held
  split
  next id known => exact After.pure ⟨t, .refl steady, fun assumed => reflects assumed ty value id known⟩
  next =>
    refine Safe.bind (safe_typeId ty steady declarable) fun typeId w₁ held => ?_
    obtain ⟨t₁, served, -, ty', known, same⟩ := held
    have steady₁ := served.steady
    refine After.bind (after_takeId (fun _ => Error.spared_idsExhausted shaped) fun free => ?_)
    -- In a steady workspace the id that was taken is not null.
    rw [if_neg (Int.ne_of_gt steady₁.positive)]
    refine After.bind (after_newInst (After.bind (after_addGlobal fun uses => ?_)))
    let i : Instruction :=
      { opcode := .constant, typeId, resultId := w₁.program.module.idBound, operands := [⟨.literalNumber, value⟩] }
    have edited : Edited shaped w₁ { program := w₁.program.declared i, facts := { w₁.facts with uses } } :=
      .declared free (Instruction.complete_of_operands (List.cons_ne_nil _ _)) rfl uses
    have steady₂ := steady₁.edited edited
    obtain ⟨c₂, found₂, reflects₂⟩ := steady₂.constants
    refine After.bind (after_needConstants_known found₂ (After.bind (After.modify (After.pure ?_))))
    have fixed (assumed : typed) : (w₁.program.declared i).FixesConstant t₁.type? i.resultId ty value :=
      ⟨i, Program.fixes_declared i (steady₁.entries assumed), rfl, rfl, rfl, ty', known, same⟩
    refine ⟨t₁, served.trans ⟨{ steady₂ with constants := ?_ }, edited.program, .refl _ _, fun _ =>
      edited.introduces.mono fun _ => False.elim⟩, fixed⟩
    exact ⟨_, rfl, fun assumed => (reflects₂ assumed).register (fixed assumed)⟩

/-! ### Variables -/

/-- A variable is declared if there is an id left. -/
theorem safe_declareBufferVariable (pointerType : Id) (steady : w.Steady shaped typed t) :
    Safe shaped (declareBufferVariable pointerType) w fun id w' => Serves shaped typed 0 t w t w' ∧ id ≠ 0 ∧
      w.program.module.idBound < maxIdBound ∧
      (typed → ∃ i, w'.program.Fixes i ∧ i.opcode = .var ∧ i.resultId = id ∧ i.typeId = pointerType) := by
  unfold declareBufferVariable
  refine After.bind (after_takeId (fun _ => Error.spared_idsExhausted shaped) fun free => ?_)
  refine After.bind (after_newInst (After.bind (after_addGlobal fun uses => After.pure ?_)))
  refine ⟨.of_edited steady (.declared free (Instruction.complete_of_operands (List.cons_ne_nil _ _)) rfl uses),
    Int.ne_of_gt steady.positive, free, fun assumed => ?_⟩
  exact ⟨_, Program.fixes_declared _ (steady.entries assumed), rfl, rfl, rfl⟩

end Workspace

end BlockTally
