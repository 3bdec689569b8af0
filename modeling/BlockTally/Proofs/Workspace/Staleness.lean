import BlockTally.Proofs.Workspace.Attaching
import BlockTally.Proofs.Workspace.Requests

/-! Tables that are not told of edits.

Declarations and annotations that are listed in a workspace are recorded among the uses and the annotations, but the
tables of types and constants that were found before stay as they are. So they do not know what was added, and a
request for it declares it again.
-/

set_option autoImplicit false

namespace BlockTally.Workspace

variable {w w' : Workspace}

inductive Listing where
  | global (r : InstRef)
  | note (r : InstRef)
  deriving DecidableEq, Repr

namespace Listing

def run : Listing → Action Unit
  | .global r => addGlobal r
  | .note r => addAnnotation r

def global? : Listing → Option InstRef
  | .global r => some r
  | .note _ => none

end Listing

structure Unaware (globals : List InstRef) (w w' : Workspace) : Prop where
  types : w'.facts.types = w.facts.types
  constants : w'.facts.constants = w.facts.constants
  typesValues : w'.program.module.typesValues = w.program.module.typesValues ++ globals
  inst : w'.program.inst = w.program.inst

theorem Unaware.trans {w'' : Workspace} {globals more : List InstRef} (first : Unaware globals w w')
    (second : Unaware more w' w'') : Unaware (globals ++ more) w w'' where
  types := second.types.trans first.types
  constants := second.constants.trans first.constants
  typesValues := by rw [second.typesValues, first.typesValues, List.append_assoc]
  inst := second.inst.trans first.inst

theorem unaware_listing (listing : Listing) :
    Then listing.run w fun _ => Unaware listing.global?.toList w := by
  cases listing with
  | global r =>
    change Then (addGlobal r) w _
    exact after_addGlobal fun _ => ⟨rfl, rfl, rfl, rfl⟩
  | note r =>
    have same (p : Program) (facts : Facts) (types : facts.types = w.facts.types)
        (constants : facts.constants = w.facts.constants) (inst : p.inst = w.program.inst)
        (listed : p.module.typesValues = w.program.module.typesValues) :
        Unaware [] w { program := p, facts } := ⟨types, constants, by rw [listed, List.append_nil], inst⟩
    change Then ( addAnnotation r) w _
    unfold addAnnotation
    refine Change.After.bind (.within (Program.after_append (Change.After.bind (.modify (.bind_get ?_)))))
    dsimp only
    split
    · exact .pure (same _ _ rfl rfl rfl rfl)
    · exact Then.check fun _ _ => .modify (same _ _ rfl rfl rfl rfl)

theorem unaware_listings (listings : List Listing) :
    Then (listings.forM Listing.run) w fun _ => Unaware (listings.filterMap Listing.global?) w := by
  induction listings generalizing w with
  | nil => exact .pure ⟨rfl, rfl, (List.append_nil _).symm, rfl⟩
  | cons listing rest ih =>
    refine (unaware_listing listing).bind fun _ w₁ first => ?_
    refine .mono (ih (w := w₁)) (fun _ w₂ second => ?_) fun _ _ _ => True.intro
    have both := first.trans second
    cases listing <;> exact both

/-! ### Requests for what a table does not know -/

theorem then_true {α : Type} (change : Action α) : Then change w fun _ _ => True := by
  unfold Then Change.After
  split <;> trivial

theorem then_declareNew_bound {ty : Ty} {declaration : Opcode × List Operand} :
    Then (declareNew ty declaration) w fun id _ => id = w.program.module.idBound := by
  unfold declareNew
  refine Change.After.bind (after_takeId (fun _ => True.intro) fun _ => ?_)
  split
  · exact Then.check fun _ _ => .throw True.intro
  · refine (then_true _).bind fun _ _ _ => (then_true _).bind fun _ _ _ => (then_true _).bind fun _ _ _ => ?_
    refine (then_true _).bind fun _ _ _ => (then_true _).bind fun _ _ _ => (then_true _).bind fun _ _ _ => ?_
    exact .pure rfl

/-- Whatever was requested, ids have only been taken since. -/
theorem bound_le_of_asks {lengths : Value → Prop} {w' : Workspace} (moves : (asks lengths).moves w w') :
    w.program.module.idBound ≤ w'.program.module.idBound :=
  (extends_of_asks moves).toGrows.module.bound_le

theorem then_bound_le {α : Type} {change : Action α} {post : α → Workspace → Prop}
    (h : (asks fun _ => True).Keeps change w post) :
    Then change w fun _ w' => w.program.module.idBound ≤ w'.program.module.idBound :=
  .mono h (fun _ _ held => bound_le_of_asks held.1) fun _ _ _ => True.intro

theorem then_typeId_bound_le (ty : Ty) :
    Then (typeId ty) w fun _ w' => w.program.module.idBound ≤ w'.program.module.idBound :=
  then_bound_le (asks_typeId ty fun _ _ => True.intro)

theorem then_typeIds_bound_le {t : TypeTable} (tys : List Ty) (found : w.facts.types = some t) :
    Then (typeIds tys) w fun _ w' => w.program.module.idBound ≤ w'.program.module.idBound :=
  then_bound_le (servesTypes_asks.keeps_typeIds tys ⟨t, found⟩ fun _ _ _ _ => True.intro)

theorem then_declareLast {α : Type} {ty : Ty} {inner : Action α} {declaration : α → Opcode × List Operand}
    (h : Then inner w fun _ w' => w.program.module.idBound ≤ w'.program.module.idBound) :
    Then (inner >>= fun a => declareNew ty (declaration a)) w fun id _ => w.program.module.idBound ≤ id := by
  refine h.bind fun a w' le => ?_
  exact .mono then_declareNew_bound (fun id _ same => same ▸ le) fun _ _ _ => True.intro

/-- A type that the table does not know is declared under a new id. -/
theorem then_typeId_new {t : TypeTable} {ty : Ty} (found : w.facts.types = some t) (unknown : t.id ty = 0) :
    Then (typeId ty) w fun id _ => w.program.module.idBound ≤ id := by
  have made {make : Action Id} (h : Then make w fun id _ => w.program.module.idBound ≤ id) :
      Then (known ty make) w fun id _ => w.program.module.idBound ≤ id := by
    unfold known
    refine (then_needTypes_known found).bind fun t' w' held => ?_
    obtain ⟨rfl, rfl⟩ := held
    dsimp only
    rw [if_neg (by simp [unknown])]
    exact h
  -- The type is declared last, behind its components, and the bound never falls.
  cases ty with
  | atom form ds =>
    unfold typeId
    refine made (Then.check fun _ _ => ?_)
    exact .mono then_declareNew_bound (fun _ _ same => Int.le_of_eq same.symm) fun _ _ _ => True.intro
  | wrap form component ds =>
    unfold typeId
    exact made (then_declareLast (then_typeId_bound_le component))
  | struct members mds ds =>
    unfold typeId
    exact made (then_declareLast (then_typeIds_bound_le members found))
  | function result parameters ds =>
    unfold typeId
    have first := asks_typeId (w := w) result fun _ _ => True.intro
    refine made (Change.After.bind (.mono first (fun _ w₁ held => ?_) fun _ _ _ => True.intro))
    obtain ⟨t₁, found₁, -⟩ := types_of_asks held.1 found
    refine .mono (then_declareLast (then_typeIds_bound_le parameters found₁)) (fun _ _ le => ?_) fun _ _ _ => True.intro
    exact Int.le_trans (bound_le_of_asks held.1) le

/-- A constant that the table does not know is declared under a new id. -/
theorem then_constantId_new {c : ConstantTable} {ty : Ty} {value : Value} (found : w.facts.constants = some c)
    (unknown : c.id? ty value = none) : Then (constantId ty value) w fun id _ => w.program.module.idBound ≤ id := by
  unfold constantId
  refine (then_needConstants_known found).bind fun c' w' held => ?_
  obtain ⟨rfl, rfl⟩ := held
  refine Then.check fun _ _ => ?_
  rw [unknown]
  refine (then_typeId_bound_le ty).bind fun _ w₁ le => ?_
  refine Change.After.bind (after_takeId (fun _ => True.intro) fun _ => ?_)
  split
  · exact .throw True.intro
  · refine (then_true _).bind fun _ _ _ => (then_true _).bind fun _ _ _ => (then_true _).bind fun _ _ _ => ?_
    exact (then_true _).bind fun _ _ _ => .pure le

/-! ### What a fresh reading knows -/

theorem isSome_id?_readConstant {p : Program} {t : TypeTable} {c : ConstantTable} {ty : Ty} {value : Value}
    (r : InstRef) (h : (c.id? ty value).isSome = true) : ((readConstant p t c r).id? ty value).isSome = true := by
  unfold readConstant
  dsimp only
  split
  · split
    · rw [ConstantTable.id?_register]
      split
      · rfl
      · exact h
    · exact h
  · exact h

/-- A declared constant of a known type is in the table. -/
theorem isSome_id?_of_mem {p : Program} {t : TypeTable} {c : ConstantTable} {r : InstRef} {ty : Ty} {operand : Operand}
    (read : p.typeTable = .ok t) (table : p.constantTable = .ok c) (member : r ∈ p.module.typesValues)
    (constant : (p.inst r).opcode = .constant) (type : t.type? (.int (p.inst r).typeId) = some ty)
    (operands : (p.inst r).operands = [operand]) : (c.id? ty operand.value).isSome = true := by
  rw [Program.constantTable_ok read] at table
  obtain rfl := Except.ok.inj table
  obtain ⟨front, rest, split⟩ := List.append_of_mem member
  rw [split, List.foldl_append, List.foldl_cons]
  generalize front.foldl (readConstant p t) {} = c
  -- The constant is there once it was read, and nothing that is read later takes it away.
  have here : ((readConstant p t c r).id? ty operand.value).isSome = true := by
    simp only [readConstant, type, operands, if_pos constant, ConstantTable.id?_register]
    rfl
  generalize readConstant p t c r = c' at here
  clear split
  induction rest generalizing c' with
  | nil => exact here
  | cons s rest ih => exact ih _ (isSome_id?_readConstant s here)

/-- The tables answer as they did before the listings. A fresh reading would know the declarations that were listed;
what the tables do not know is declared under a new id when it is requested. -/
structure Stale (listings : List Listing) (w w' : Workspace) : Prop where
  types : w'.facts.types = w.facts.types
  constants : w'.facts.constants = w.facts.constants
  readTypes : ∀ r, .global r ∈ listings → (w'.program.inst r).opcode.declaresType = true →
    ∀ t, w'.program.typeTable = .ok t → (t.type? (.int (w'.program.inst r).resultId)).isSome = true
  readConstants : ∀ r, .global r ∈ listings → (w'.program.inst r).opcode = .constant →
    ∀ t ty operand c, w'.program.typeTable = .ok t → t.type? (.int (w'.program.inst r).typeId) = some ty →
      (w'.program.inst r).operands = [operand] → w'.program.constantTable = .ok c →
      (c.id? ty operand.value).isSome = true
  newType : ∀ t ty, w.facts.types = some t → t.id ty = 0 →
    Then (typeId ty) w' fun id _ => w'.program.module.idBound ≤ id
  newConstant : ∀ c ty value, w.facts.constants = some c → c.id? ty value = none →
    Then (constantId ty value) w' fun id _ => w'.program.module.idBound ≤ id

/-- Listing declarations and annotations leaves the tables of types and constants behind. -/
theorem stale_of_listings {listings : List Listing} (ran : listings.forM Listing.run w = .ok () w') :
    Stale listings w w' := by
  have unaware := (unaware_listings listings).of_ok ran
  have listed {r : InstRef} (member : .global r ∈ listings) : r ∈ w'.program.module.typesValues := by
    rw [unaware.typesValues]
    exact List.mem_append_right _ (List.mem_filterMap.mpr ⟨_, member, rfl⟩)
  refine ⟨unaware.types, unaware.constants, fun r member declares t read => ?_,
    fun r member constant t ty operand c read type operands table => ?_, fun t ty found unknown => ?_,
    fun c ty value found unknown => ?_⟩
  · exact (Program.isSome_type?_iff read).mpr ⟨r, List.mem_filter.mpr ⟨listed member, declares⟩, rfl⟩
  · exact isSome_id?_of_mem read table (listed member) constant type operands
  · exact then_typeId_new (unaware.types.trans found) unknown
  · exact then_constantId_new (unaware.constants.trans found) unknown

/-- A workspace that has read the tables of an empty module, and holds a declaration that is not listed yet. -/
def unlistedType : Workspace where
  program := {
    instructions := ⟨#[{ instruction := { opcode := .typeBool, resultId := 1 } }]⟩
    module := { idBound := 2 } }
  facts := { types := some {}, constants := some {} }

/-- The type gets a second declaration. -/
theorem stale_of_listings_sample : ∃ w', [Listing.global ⟨0⟩].forM Listing.run unlistedType = .ok () w' ∧
    Stale [.global ⟨0⟩] unlistedType w' ∧ Change.answer? (typeId (.atom .bool []) w') = some 2 := by
  have ran := Change.eq_ok_of_answer (by decide +kernel :
    Change.answer? ([Listing.global ⟨0⟩].forM Listing.run unlistedType) = some ())
  exact ⟨_, ran, stale_of_listings ran, by decide +kernel⟩

/-- Facts that are current do not have to stay so, even if all listed declarations have new ids. -/
theorem not_current_of_listings : ¬∀ (w w' : Workspace) (listings : List Listing),
    w.Current → w.facts.types.isSome = true → w.facts.constants.isSome = true →
    (∀ r, .global r ∈ listings → w.program.Holds r ∧ (w.program.inst r).resultId ≠ 0 ∧
      (w.program.inst r).resultId ∉ w.program.resultIds) →
    listings.forM Listing.run w = .ok () w' → w'.Current := by
  intro always
  have current : unlistedType.Current := by
    refine ⟨nofun, fun t found => ⟨{}, rfl, ?_⟩, fun c found => ⟨{}, rfl, ?_⟩⟩
    · obtain rfl := Option.some.inj found
      exact .refl _
    · obtain rfl := Option.some.inj found
      exact fun _ _ => rfl
  have fresh : ∀ r, .global r ∈ [Listing.global ⟨0⟩] → unlistedType.program.Holds r ∧
      (unlistedType.program.inst r).resultId ≠ 0 ∧
      (unlistedType.program.inst r).resultId ∉ unlistedType.program.resultIds := by
    intro r member
    obtain ⟨⟩ := List.mem_singleton.mp member
    decide
  have ran := Change.eq_ok_of_answer (by decide +kernel :
    Change.answer? ([Listing.global ⟨0⟩].forM Listing.run unlistedType) = some ())
  obtain ⟨t, read, agrees⟩ := (always _ _ _ current rfl rfl fresh ran).types {} rfl
  -- The table that was kept does not know the id that is declared now.
  have known : (t.type? (.int 1)).isSome = true :=
    (Program.isSome_type?_iff read).mpr ⟨⟨0⟩, by decide +kernel, by decide +kernel⟩
  obtain ⟨ty, found⟩ := Option.isSome_iff_exists.mp known
  have same := agrees.types (.int 1)
  rw [found] at same
  cases same

end BlockTally.Workspace
