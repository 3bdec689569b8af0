import BlockTally.Proofs.Ty.Longer
import BlockTally.Proofs.Workspace.Recall

/-! Types that are read from where they were declared.

Some types of a module may have no ids: a reading knows them, but it cannot hand them out, and they are declared once
more. The id that a request for a type answers with is still read as the type, now and later on.
-/

set_option autoImplicit false

namespace BlockTally

namespace Ty

theorem allFormed_iff {tys : List Ty} : AllFormed tys ↔ ∀ ty ∈ tys, ty.Formed := by
  induction tys with
  | nil => exact ⟨fun _ => nofun, fun _ => True.intro⟩
  | cons ty rest ih => rw [List.forall_mem_cons, ← ih, AllFormed]

theorem Formed.component {ty inner : Ty} (h : ty.Formed) (member : inner ∈ ty.components) : inner.Formed := by
  cases ty with
  | atom => cases member
  | wrap form component ds =>
    obtain rfl := List.mem_singleton.mp member
    exact h.2.1
  | struct members mds ds => exact allFormed_iff.mp h.1 inner member
  | function result parameters ds =>
    rcases List.mem_cons.mp member with rfl | other
    · exact h.1
    · exact allFormed_iff.mp h.2.1 inner other

/-- A declaration by ids that are known as the components. -/
theorem Formed.spells {known : Value → Option Ty} {declaration : Opcode × List Operand} {ty : Ty} (h : ty.Formed)
    (declared : DeclaredBy (KnownAs known) declaration ty) : Spells known declaration ty := by
  cases declared with
  | atom found => exact spells_atom h found
  | wrap inner => exact spells_wrap h.1 h.2.2 inner
  | struct inner => exact spells_struct h.2.2 h.2.1 inner
  | function inner => exact spells_function h.2.2 inner

theorem DeclaredBy.mono {stands stands' : Id → Ty → Prop} {declaration : Opcode × List Operand} {ty : Ty}
    (h : DeclaredBy stands declaration ty) (weaker : ∀ id ty, stands id ty → stands' id ty) :
    DeclaredBy stands' declaration ty := by
  cases h with
  | atom found => exact .atom found
  | wrap inner => exact .wrap (weaker _ _ inner)
  | struct inner => exact .struct (inner.imp weaker)
  | function inner => exact .function (inner.imp weaker)

end Ty

namespace TypeTable

/-- The second table may have other types in place of types that are not simple. -/
def Blurs (t u : TypeTable) : Prop :=
  ∀ v, Option.Rel Ty.Blurs (t.type? v) (u.type? v)

namespace Blurs

variable {t u : TypeTable} {ty ty' : Ty}

theorem empty : Blurs {} {} :=
  fun _ => .none

theorem register (h : t.Blurs u) (id : Id) (blurs : ty.Blurs ty') : (t.register id ty).Blurs (u.register id ty') := by
  intro v
  simp only [TypeTable.register, type?, Table.get?_set]
  split
  · exact .some blurs
  · exact h v

theorem simple (h : t.Blurs u) (simple : ty.Simple) {v : Value} (found : t.type? v = some ty) :
    u.type? v = some ty := by
  have related := h v
  rw [found] at related
  generalize u.type? v = there at related
  cases related with
  | some blurs => rw [blurs.eq_of_simple simple]

end Blurs

end TypeTable

namespace Program

/-- Types have different ids. Ids of declarations are below the bound, and so are ids that are annotated. -/
structure Lucid (p : Program) : Prop where
  distinct : (p.idsOf p.declarations).Nodup
  ids : ∀ r ∈ p.module.typesValues, (p.inst r).resultId ≠ 0 → (p.inst r).resultId < p.module.idBound
  targets : p.AnnotatesBelow

def Knows (p : Program) (id : Id) (ty : Ty) : Prop :=
  ∃ t, p.typeTable = .ok t ∧ Ty.KnownAs t.type? id ty

def Retains (p q : Program) : Prop :=
  ∀ t, p.typeTable = .ok t → ∃ t', q.typeTable = .ok t' ∧ ∀ v ty, t.type? v = some ty → t'.type? v = some ty

variable {p q o : Program} {r : InstRef} {notes : List InstRef} {t : TypeTable} {id : Id} {ty : Ty}

theorem lucid_of_wellFormed (formed : p.WellFormed) (targets : p.AnnotatesBelow) : p.Lucid where
  distinct := formed.distinct.sublist (p.idsOf_sublist (List.filter_sublist.trans p.typesValues_sublist))
  ids _ member result :=
    (formed.bounded _ (mem_resultIds.mpr ⟨_, mem_allInsts_of_list .typesValues member, rfl, result⟩)).2
  targets := targets

theorem entriesFirm_of_wellFormed (formed : p.WellFormed) (apart : p.NotesApart) : p.EntriesFirm where
  apart := apart
  operands r entry := by
    obtain ⟨id, second, -⟩ := formed.entryPoints r entry
    by_contra short
    rw [Instruction.value, List.getElem?_eq_none (by omega)] at second
    cases second

namespace Retains

theorem refl (p : Program) : p.Retains p :=
  fun t read => ⟨t, read, fun _ _ => id⟩

theorem trans (first : p.Retains q) (second : q.Retains o) : p.Retains o := by
  intro t read
  obtain ⟨t', read', more⟩ := first t read
  obtain ⟨t'', read'', more'⟩ := second t' read'
  exact ⟨t'', read'', fun v ty found => more' v ty (more v ty found)⟩

theorem of_same (same : q.typeTable = p.typeTable) : p.Retains q :=
  fun t read => ⟨t, same.trans read, fun _ _ => id⟩

theorem knows (h : p.Retains q) (known : p.Knows id ty) : q.Knows id ty := by
  obtain ⟨t, read, ty', found, key⟩ := known
  obtain ⟨t', read', more⟩ := h t read
  exact ⟨t', read', ty', more _ _ found, key⟩

end Retains

/-! ### Longer declarations -/

/-- The second program has the same annotations. It has the same declarations of globals as well, apart from operands
that are put behind two or more. -/
structure Lengthens (p q : Program) : Prop where
  notes : p.NotesAlike q
  typesValues : q.module.typesValues = p.module.typesValues
  extended : ∀ r ∈ p.module.typesValues, ∃ more, q.inst r = (p.inst r).extended more ∧
    (more = [] ∨ 2 ≤ (p.inst r).operands.length)

namespace Lengthens

variable (h : p.Lengthens q)
include h

theorem declarations : q.declarations = p.declarations := by
  unfold Program.declarations
  rw [h.typesValues]
  refine List.filter_congr fun r member => ?_
  obtain ⟨more, same, -⟩ := h.extended r member
  rw [same]
  rfl

/-- A longer declaration is read. -/
theorem read {a : Annotations} {u v : TypeTable} (annotated : Annotations.ofProgram p = .ok a)
    (member : r ∈ p.declarations) (blurs : t.Blurs u) (read : TypeTable.read p a t r = .ok v) :
    ∃ v', TypeTable.read q a u r = .ok v' ∧ v.Blurs v' := by
  obtain ⟨plain, declared, ty, decorated, passes, rfl⟩ := TypeTable.read_ok_iff.mp read
  obtain ⟨more, same, longer⟩ := h.extended r (List.mem_of_mem_filter member)
  obtain ⟨plain', declared', plain_blurs⟩ := Ty.exists_ofInstruction blurs longer declared
  obtain ⟨ty', decorated', ty_blurs⟩ := plain_blurs.decorated decorated
  have result : (q.inst r).resultId = (p.inst r).resultId := by rw [same]; rfl
  refine ⟨u.register (p.inst r).resultId ty', TypeTable.read_ok_iff.mpr
    ⟨plain', same ▸ declared', ty', ?_, ty_blurs.checkStorage passes, by rw [result]⟩, blurs.register _ ty_blurs⟩
  rw [result, h.notes.ofType annotated]
  exact decorated'

theorem typeTable (read : p.typeTable = .ok t) : ∃ t', q.typeTable = .ok t' ∧ t.Blurs t' := by
  rcases typeTable_ok_iff.mp read with ⟨none, rfl⟩ | ⟨a, annotated, read⟩
  · exact ⟨{}, typeTable_ok_iff.mpr (.inl ⟨h.declarations.trans none, rfl⟩), .empty⟩
  obtain ⟨t', read', blurs⟩ := except_foldlM_rel read .empty fun r member _ _ _ blurs step =>
    h.read annotated member blurs step
  refine ⟨t', typeTable_ok_iff.mpr (.inr ⟨a, h.notes.ofProgram.trans annotated, ?_⟩), blurs⟩
  rw [h.declarations]
  exact read'

theorem knows (simple : ty.Simple) (known : p.Knows id ty) : q.Knows id ty := by
  obtain ⟨t, read, ty₀, found, key⟩ := known
  obtain ⟨t', read', blurs⟩ := h.typeTable read
  exact ⟨t', read', ty₀, blurs.simple (simple.of_key key) found, key⟩

end Lengthens

/-! ### What is declared and annotated -/

namespace Lucid

variable (h : p.Lucid)
include h

theorem ids_ne (nonzero : p.module.idBound ≠ 0) (member : r ∈ p.module.typesValues) :
    (p.inst r).resultId ≠ p.module.idBound :=
  fun same => Int.ne_of_lt (h.ids r member (same ▸ nonzero)) same

theorem fresh (nonzero : p.module.idBound ≠ 0) (read : p.typeTable = .ok t) :
    t.type? (.int p.module.idBound) = none := by
  by_contra found
  obtain ⟨r, member, same⟩ := (isSome_type?_iff read).mp (Option.isSome_iff_ne_none.mpr found)
  exact h.ids_ne nonzero (List.mem_of_mem_filter member) same

/-- A declaration under the next id. -/
theorem declared (declared : p.Declared q r notes) : q.Lucid where
  distinct := by
    have old : ∀ s ∈ p.declarations, q.inst s = p.inst s :=
      fun s member => declared.adds.global s (List.mem_of_mem_filter member)
    have same : q.idsOf p.declarations = p.idsOf p.declarations :=
      List.flatMap_congr fun s member => congrArg _ (old s member)
    rw [declared.adds.declarations, idsOf_append, same, List.nodup_append]
    refine ⟨h.distinct, ?_, fun id known id' new equal => ?_⟩
    · refine List.Nodup.sublist (q.idsOf_sublist List.filter_sublist) ?_
      simp only [idsOf, List.flatMap_singleton, Instruction.ownIds]
      split <;> simp
    · obtain ⟨s, member, rfl, -⟩ := mem_idsOf.mp known
      obtain ⟨s', member', rfl, -⟩ := mem_idsOf.mp new
      obtain rfl := List.mem_singleton.mp (List.mem_of_mem_filter member')
      -- The new id is the bound, which no result id has reached.
      exact h.ids_ne declared.nonzero (List.mem_of_mem_filter member) (equal.trans declared.result)
  ids s member := by
    rw [declared.adds.typesValues] at member
    rw [declared.bound]
    rcases List.mem_append.mp member with old | last
    · rw [declared.adds.global s old]
      exact fun result => Int.lt_trans (h.ids s old result) (Int.lt_succ _)
    · obtain rfl := List.mem_singleton.mp last
      rw [declared.result]
      exact fun _ => Int.lt_succ _
  targets n member id found := by
    rw [declared.adds.annotations] at member
    rw [declared.bound]
    rcases List.mem_append.mp member with old | last
    · rw [declared.adds.note n old] at found
      exact Int.lt_trans (h.targets n old id found) (Int.lt_succ _)
    · rw [declared.targets n last] at found
      obtain rfl : p.module.idBound = id := by simpa using found
      exact Int.lt_succ _

/-- A type that was declared is found under its id, and the other types are found as before. -/
theorem retains_of_register {ty' : Ty} (nonzero : p.module.idBound ≠ 0) (read : p.typeTable = .ok t)
    (read' : q.typeTable = .ok (t.register p.module.idBound ty')) (key : ty'.key = ty.key) :
    p.Retains q ∧ q.Knows p.module.idBound ty := by
  refine ⟨fun t₀ read₀ => ⟨_, read', ?_⟩, _, read', ty', ?_, key⟩
  · obtain rfl := Except.ok.inj (read.symm.trans read₀)
    have grows : t.Extends ty'.size (t.register p.module.idBound ty') := .register (h.fresh nonzero read)
    exact grows.types
  · simp [TypeTable.register, TypeTable.type?, Table.get?_set]

end Lucid

end Program

namespace Workspace

structure Lucid (w : Workspace) : Prop where
  program : w.program.Lucid
  filed : w.Filed
  firm : w.program.EntriesFirm
  current : w.Current
  constants : w.facts.constants = none

variable {w w' : Workspace} {α : Type} {post : α → Workspace → Prop} {id : Id} {ty : Ty}

theorem lucid_of_valid {p : Program} (valid : p.validate = .ok ()) (closed : p.Closed) (targets : p.AnnotatesBelow)
    (apart : p.NotesApart) : Lucid { program := p } where
  program := Program.lucid_of_wellFormed (Program.validate_ok_iff.mp valid) targets
  filed := ⟨closed.filed, nofun⟩
  firm := Program.entriesFirm_of_wellFormed (Program.validate_ok_iff.mp valid) apart
  current := current_forgotten p
  constants := rfl

/-- Steps keep the lists in order. -/
theorem filed_of_steps (h : w.Filed) (firm : w.program.EntriesFirm) (moves : (steps ∅).moves w w') :
    w'.Filed ∧ w'.program.EntriesFirm := by
  obtain ⟨filed, new⟩ := h.steps moves
  exact ⟨filed, firm.later h.lists (extends_of_steps moves).toGrows new⟩

theorem Lucid.of_steps (h : w.Lucid) (moves : (steps ∅).moves w w') (program : w'.program.Lucid)
    (current : w'.Current) (constants : w'.facts.constants = none) : w'.Lucid := by
  obtain ⟨filed, firm⟩ := filed_of_steps h.filed h.firm moves
  exact ⟨program, filed, firm, current, constants⟩

def lucid : Account Workspace where
  moves w w' := w.Lucid → w'.Lucid ∧ (w.facts.types.isSome = true → w'.facts.types.isSome = true) ∧
    w.program.Retains w'.program
  fails _ _ _ := True
  refl w h := ⟨h, fun found => found, .refl w.program⟩
  trans first second h := by
    obtain ⟨h', known, retains⟩ := first h
    obtain ⟨h'', known', retains'⟩ := second h'
    exact ⟨h'', fun found => known' (known found), retains.trans retains'⟩
  later _ _ := True.intro
  refuses _ := True.intro

theorem lucid_needTypes (h : w.Lucid) : lucid.Keeps needTypes w fun t w' => w'.facts.types = some t ∧
    w'.program = w.program ∧ ∃ t', w.program.typeTable = .ok t' ∧ t.Agrees t' := by
  have stepped : (steps ∅).Keeps needTypes w _ := steps_of_asks asks_needTypes
  have looked := Change.After.and (after_needTypes h.current) stepped
  refine Change.After.mono looked (fun t w' held => ?_) fun _ _ _ => True.intro
  obtain ⟨⟨read, current, program, types, constants⟩, moves, -⟩ := held
  refine ⟨fun _ => ⟨?_, fun _ => by rw [types]; rfl, program ▸ .refl _⟩, types, program, read⟩
  exact h.of_steps moves (program ▸ h.program) current (constants.trans h.constants)

theorem steps_declareNew (ty : Ty) (declaration : Opcode × List Operand) :
    (steps ∅).Keeps (declareNew ty declaration) w fun _ _ => True := by
  unfold declareNew
  refine Change.After.bind (after_takeId (fun _ => ⟨w, .refl, .refl⟩) fun free => ?_)
  split
  · have lost (e : Error) : (steps ∅).fails w e { w with program := w.program.nextBound } :=
      ⟨w, .refl, .single (.id free)⟩
    exact .bind (.check (fun _ _ => .throw (lost _)) fun e _ => lost e)
  · refine Change.After.bind (after_newInst (Change.After.bind (after_listed ?_)))
    refine Account.Keeps.after_move ?_ (.single (.declare free rfl))
    refine (steps_of_finds finds_needAnnotations).discard.seq fun _ _ _ => ?_
    refine (steps_of_notes (notes_decorations _ _)).seq fun _ _ _ => ?_
    refine (steps_of_notes (notes_memberDecorations _ _)).seq fun _ _ _ => ?_
    exact (steps_registerType _ _).seq fun _ _ _ => Account.Keeps.pure True.intro

/-- A new type is declared with its decorations. -/
theorem lucid_declareNew {declaration : Opcode × List Operand} (h : w.Lucid)
    (known : w.facts.types.isSome = true) (formed : ty.Formed)
    (declared : Ty.DeclaredBy w.program.Knows declaration ty) :
    lucid.Keeps (declareNew ty declaration) w fun id w' => w'.program.Knows id ty := by
  obtain ⟨live, found⟩ := Option.isSome_iff_exists.mp known
  obtain ⟨t, read, agrees⟩ := h.current.types live found
  have spells : Ty.Spells t.type? declaration ty := formed.spells <| declared.mono fun id ty known => by
    obtain ⟨t', read', known⟩ := known
    obtain rfl := Except.ok.inj (read.symm.trans read')
    exact known
  have made : Then (declareNew ty declaration) w fun id w' => w'.program.Lucid ∧ w'.Current ∧
      w'.facts.constants = none ∧ w'.facts.types.isSome = true ∧ w.program.Retains w'.program ∧
      w'.program.Knows id ty := by
    unfold declareNew
    refine Change.After.bind (after_takeId (fun _ => True.intro) fun free => ?_)
    split
    · exact Then.check fun _ _ => .throw True.intro
    next nonzero =>
      refine Change.After.bind (after_newInst (Change.After.bind (after_addGlobal fun uses => ?_)))
      let i : Instruction :=
        { opcode := declaration.1, resultId := w.program.module.idBound, operands := declaration.2 }
      obtain ⟨adds, held⟩ := h.filed.lists.globalsHeld.declared i
      have annotations := adds.ofProgram_eq rfl
      -- No annotation has the id that was the bound as its target.
      have none : ∀ n ∈ w.program.module.annotations,
          ((w.program.declared i).inst n).target? ≠ some (.int w.program.module.idBound) := by
        intro n member same
        rw [adds.note n member] at same
        exact Int.lt_irrefl _ (h.program.targets n member _ same)
      have introduced := then_introduce (w := { program := w.program.declared i, facts := { w.facts with uses } })
        formed held (fun a known => annotations.trans (h.current.annotations a known)) none found
      refine .mono introduced (fun answer w' held => ?_) fun _ _ _ => True.intro
      obtain ⟨rfl, w₁, attached, rfl⟩ := held
      obtain ⟨notes, a, declared, inst, found', read', onId⟩ :=
        attached.declared h.filed.lists.globalsHeld spells.declares rfl nonzero rfl
      have others : ∀ s ∈ w.program.declarations, (w.program.inst s).resultId ≠ w.program.module.idBound :=
        fun s member => h.program.ids_ne nonzero (List.mem_of_mem_filter member)
      -- A fresh reading registers the new declaration last, with a type of the same key.
      obtain ⟨ty', key, types⟩ := declared.typeTable others read inst spells read' onId
      obtain ⟨retains, knows⟩ := h.program.retains_of_register nonzero read types key
      have unread : w₁.facts.constants = Option.none := attached.constants.trans h.constants
      refine ⟨h.program.declared declared, ⟨fun b same => ?_, fun t' same => ?_, fun c same => ?_⟩, unread, rfl,
        retains, knows⟩
      · exact Option.some.inj (found'.symm.trans same) ▸ read'
      · exact Option.some.inj same ▸ ⟨_, types, agrees.register key.symm _⟩
      · exact absurd (unread.symm.trans same) nofun
  refine Change.After.mono (made.and (steps_declareNew ty declaration)) (fun id w' held => ?_) fun _ _ _ => True.intro
  obtain ⟨⟨program, current, constants, types, retains, knows⟩, moves, -⟩ := held
  exact ⟨fun _ => ⟨h.of_steps moves program current constants, fun _ => types, retains⟩, knows⟩

theorem servesTypes_lucid : ServesTypes lucid Lucid (fun w => w.Lucid ∧ w.facts.types.isSome = true)
    (fun _ => Ty.Formed) (fun w => w.program.Knows) where
  start ready := ready.1
  kept ready move := by
    obtain ⟨h, known, -⟩ := move ready.1
    exact ⟨h, known ready.2⟩
  still _ _ formed := formed
  component formed _ := formed.component
  later ready move := (move ready.1).2.2.knows
  found h := (lucid_needTypes h).mono fun t w' move held => by
    obtain ⟨types, program, t', read, agrees⟩ := held
    refine ⟨⟨(move h).1, by rw [types]; rfl⟩, fun ty nonzero => ?_⟩
    rw [agrees.id] at nonzero ⊢
    exact ⟨t', program ▸ read, ((Program.sound_of_typeTable h.program.distinct read).of_id nonzero).2⟩
  declared ready formed := lucid_declareNew ready.1 ready.2 formed

/-- The id that a request for a type answers with is read as the type. -/
theorem lucid_typeId (ty : Ty) (h : w.Lucid) (formed : ty.Formed) :
    lucid.Keeps (typeId ty) w fun id w' => w'.program.Knows id ty :=
  servesTypes_lucid.keeps_typeId ty h formed

/-- A pointer to a type that nothing else is like. -/
theorem lucid_pointerId {storage : Int} (h : w.Lucid) (rigid : ∀ ty' : Ty, ty'.key = ty.key → ty' = ty)
    (formed : ty.Formed) (known : w.program.Knows id ty) : lucid.Keeps (pointerId (.int id) (.int storage)) w
      fun id' w' => w'.program.Knows id' (.pointer ty (.int storage)) := by
  unfold pointerId
  have looked : lucid.Keeps (typeOf (.int id)) w fun ty' _ => ty' = ty := by
    unfold typeOf
    refine (lucid_needTypes h).bind fun t w' move held => ?_
    obtain ⟨-, -, t', read, agrees⟩ := held
    obtain ⟨t₀, read₀, ty₀, found, key⟩ := known
    obtain rfl := Except.ok.inj (read.symm.trans read₀)
    obtain ⟨ty', found', key'⟩ := agrees.symm.type found
    rw [found']
    exact .pure (rigid ty' (key'.trans key))
  refine looked.bind fun ty' w' move same => ?_
  obtain rfl := same
  have pointer : (Ty.pointer ty' (.int storage)).Formed := ⟨⟨storage, rfl⟩, formed, Decoration.settled_nil⟩
  exact Then.check fun _ _ => lucid_typeId _ (move h).1 pointer

theorem Find.lucid (find : w.Find w') (h : w.Lucid) : w'.Lucid := by
  refine h.of_steps (.single find.step) (find.program_eq ▸ h.program) ?_ ?_
  · cases find with
    | uses | features => exact ⟨h.current.annotations, h.current.types, h.current.constants⟩
    | annotations _ read =>
      exact ⟨fun a found => Option.some.inj found ▸ read, h.current.types, h.current.constants⟩
  · exact find.looks.2.2.trans h.constants

theorem lucid_needUses : lucid.Keeps needUses w fun _ w' => w'.program = w.program := by
  have looked := Contract.keeps_of_inSteps (A := lucid) (fun _ find start => ⟨find.lucid start, fun found => ?_, ?_⟩)
    (finds_needUses (w := w)).with_move
  · exact looked.mono fun _ _ _ held => (looks_of_finds held.1).1
  · rwa [find.looks.2.1]
  · rw [find.program_eq]
    exact .refl _

/-! ### Beside the types -/

variable {targets : Set Value}

/-- Something else is put beside the declarations of types. -/
theorem Aside.inst_eq {r : InstRef} (aside : w.Aside ∅ targets w') (held : w.program.Holds r)
    (plain : Version.v1_4 ≤ w.program.module.version → r ∉ w.program.module.entryPoints) :
    w'.program.inst r = w.program.inst r := by
  by_cases late : Version.v1_4 ≤ w.program.module.version
  · exact aside.program_extends.inst held (plain late)
  cases aside with
  | find find => rw [find.program_eq]
  | name | capability | extension => exact Program.inst_made_of_lt _ held
  | lengthen late' => exact absurd late' late

/-- The operands that a step puts behind the others of an entry point are read with these, if it is a declaration. -/
theorem Aside.lengthens (aside : w.Aside ∅ targets w') (filed : w.program.Filed) (firm : w.program.EntriesFirm) :
    w.program.Lengthens w'.program := by
  have grows := aside.program_extends.toGrows
  have lists : w'.program.module.annotations = w.program.module.annotations ∧
      w'.program.module.typesValues = w.program.module.typesValues := by
    cases aside with
    | find find => rw [find.program_eq]; exact ⟨rfl, rfl⟩
    | name | capability | extension | lengthen => exact ⟨rfl, rfl⟩
  refine ⟨⟨lists.1, fun r member => ?_⟩, lists.2, fun r member => ?_⟩
  · have held := filed .annotations r member
    cases annotates : (w.program.inst r).annotates with
    | true => exact .inl (aside.inst_eq held fun late => firm.apart late r member annotates)
    | false => exact .inr ⟨rfl, by rwa [Instruction.annotates, grows.opcode held]⟩
  · have held := filed .typesValues r member
    by_cases entry : r ∈ w.program.module.entryPoints
    · obtain ⟨more, same⟩ := grows.extended held
      exact ⟨more, same, .inr (firm.operands r entry)⟩
    · exact ⟨[], (grows.inst held entry).trans (Instruction.extended_nil _).symm, .inl rfl⟩

end Workspace

end BlockTally
