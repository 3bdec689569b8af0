import BlockTally.Proofs.Program.Pairing
import BlockTally.Workspace.Constants

/-! Workspaces that look alike.

Requests in two workspaces over programs that look alike get the same ids and make the same declarations, whatever else
is in the programs. The index of uses is left out: it takes in all code, and no request asks for it.
-/

set_option autoImplicit false

namespace BlockTally

variable {ρ : Pairing} {p q : Program} {r s : InstRef} {refs refs' : List InstRef}

/-! ### Annotations -/

def Annotations.Alike (ρ : Pairing) (a b : Annotations) : Prop :=
  ∀ target, List.Forall₂ ρ.insts (a.on target) (b.on target)

namespace Annotations.Alike

variable {a b : Annotations}

theorem set (h : Alike ρ a b) (target : Value) (listed : List.Forall₂ ρ.insts refs refs') :
    Alike ρ ⟨a.byTarget.set target refs⟩ ⟨b.byTarget.set target refs'⟩ := by
  intro other
  simp only [on, Table.get?_set]
  split
  · exact listed
  · exact h other

theorem analyze (h : Alike ρ a b) (alike : p.Alike ρ q) (paired : ρ.insts r s) :
    Corresponds (Alike ρ) (a.analyze p r) (b.analyze q s) := by
  unfold Annotations.analyze
  rw [alike.inst paired]
  split
  · refine (Corresponds.refl _).bind fun target _ same => .ok ?_
    subst same
    exact h.set target (List.rel_append (h target) (.cons paired .nil))
  · exact .ok h

theorem ofProgram (alike : p.Alike ρ q) : Corresponds (Alike ρ) (ofProgram p) (ofProgram q) :=
  .foldlM (alike.module.list .annotations) (fun _ => .nil) fun _ _ paired _ _ held => held.analyze alike paired

theorem ofType (h : Alike ρ a b) (alike : p.Alike ρ q) (target : Value) : b.ofType q target = a.ofType p target := by
  unfold Annotations.ofType
  rw [List.partition_eq_filter_filter, List.partition_eq_filter_filter]
  have own := alike.filter (fun i => i.opcode = .decorate) (h target)
  have others := alike.filter (fun i => !decide (i.opcode = .decorate)) (h target)
  exact Prod.ext (alike.map (·.valuesFrom 1) own) (alike.map (·.valuesFrom 1) others)

theorem find? (h : Alike ρ a b) (alike : p.Alike ρ q) (target : Value) (opcode : Opcode) (values : List Value) :
    Option.Rel ρ.insts (a.find? p target opcode values) (b.find? q target opcode values) := by
  have listed := h target
  unfold Annotations.find?
  generalize a.on target = refs at listed
  generalize b.on target = refs' at listed
  induction listed with
  | nil => exact .none
  | cons here _ ih =>
    rw [List.find?_cons, List.find?_cons, alike.inst here]
    split
    · exact .some here
    · exact ih

end Annotations.Alike

/-! ### Features -/

namespace Features

theorem named_alike (alike : p.Alike ρ q) (opcode : Opcode) (listed : List.Forall₂ ρ.insts refs refs') :
    named q opcode refs' = named p opcode refs := by
  unfold named
  rw [alike.mapM (·.value 0) (alike.filter (·.opcode = opcode) listed)]

theorem ofProgram_alike (alike : p.Alike ρ q) : ofProgram q = ofProgram p := by
  have capabilities := named_alike alike .capability (alike.module.list .capabilities)
  have extensions := named_alike alike .extension (alike.module.list .extensions)
  unfold Module.list at capabilities extensions
  unfold ofProgram
  rw [capabilities, extensions]

end Features

namespace Workspace

open Change

variable {α β : Type} {R : α → β → Prop} {K : Prop}

/-- Workspaces over programs that look alike, with the same facts but for the uses, and for the constants if these do
not matter. -/
structure Alike (K : Prop) (ρ : Pairing) (w v : Workspace) : Prop where
  program : Program.Alike ρ w.program v.program
  annotations : Option.Rel (Annotations.Alike ρ) w.facts.annotations v.facts.annotations
  types : v.facts.types = w.facts.types
  constants : K → v.facts.constants = w.facts.constants
  features : v.facts.features = w.facts.features

theorem agrees_edit {edit : Edit α} {edit' : Edit β} (h : Agrees (Program.Alike ρ) edit edit' R) :
    Agrees (Alike K ρ) (liftM edit : Action α) (liftM edit' : Action β) R :=
  .within h (fun _ _ alike => alike.program) fun _ _ _ _ alike program => { alike with program }

theorem agrees_setAnnotations {a b : Annotations} (related : a.Alike ρ b) :
    Agrees (Alike K ρ) (setAnnotations a) (setAnnotations b) Eq :=
  .modify fun _ _ alike => { alike with annotations := .some related }

theorem agrees_setTypes (t : TypeTable) : Agrees (Alike K ρ) (setTypes t) (setTypes t) Eq :=
  .modify fun _ _ alike => { alike with types := rfl }

theorem agrees_setConstants (c : ConstantTable) : Agrees (Alike K ρ) (setConstants c) (setConstants c) Eq :=
  .modify fun _ _ alike => { alike with constants := fun _ => rfl }

theorem agrees_setFeatures (f : Features) : Agrees (Alike K ρ) (setFeatures f) (setFeatures f) Eq :=
  .modify fun _ _ alike => { alike with features := rfl }

/-! ### Finding facts -/

theorem agrees_needAnnotations : Agrees (Alike K ρ) needAnnotations needAnnotations (Annotations.Alike ρ) := by
  unfold needAnnotations
  refine .bind_get fun w v alike => ?_
  have known := alike.annotations
  generalize w.facts.annotations = found at known
  generalize v.facts.annotations = found' at known
  cases known with
  | some related => exact .pure related
  | none =>
    refine .bind_get fun w v alike => ?_
    refine (Agrees.check (Annotations.Alike.ofProgram alike.program)).bind fun a b related => ?_
    exact (agrees_setAnnotations related).seq fun _ => .pure related

theorem agrees_needFeatures : Agrees (Alike K ρ) needFeatures needFeatures Eq := by
  unfold needFeatures
  refine .bind_get fun w v alike => ?_
  rw [alike.features]
  split
  · exact .pure rfl
  · refine .bind_get fun w v alike => ?_
    rw [Features.ofProgram_alike alike.program]
    exact .seq_check fun f => (agrees_setFeatures f).seq fun _ => .pure rfl

theorem agrees_readType (t : TypeTable) (paired : ρ.insts r s) :
    Agrees (Alike K ρ) (readType t r) (readType t s) Eq := by
  unfold readType
  refine .bind_get fun w v alike => ?_
  dsimp only
  rw [alike.program.inst paired]
  refine .seq_check fun plain => agrees_needAnnotations.bind fun a b related => ?_
  rw [related.ofType alike.program]
  exact .seq_check fun ty => .seq_check fun _ => .pure rfl

theorem agrees_needTypes : Agrees (Alike K ρ) needTypes needTypes Eq := by
  unfold needTypes
  refine .bind_get fun w v alike => ?_
  rw [alike.types]
  split
  · exact .pure rfl
  · have read : Agrees (Alike K ρ) readTypes readTypes Eq := by
      unfold readTypes
      refine .bind_get fun w v alike => ?_
      exact .foldlM (alike.program.filter (·.opcode.declaresType) (alike.program.module.list .typesValues)) rfl
        fun r s paired t _ same => same ▸ agrees_readType t paired
    exact read.seq fun t => (agrees_setTypes t).seq fun _ => .pure rfl

theorem readConstants_alike (alike : p.Alike ρ q) (types : TypeTable) (listed : List.Forall₂ ρ.insts refs refs')
    (c : ConstantTable) : refs'.foldl (readConstant q types) c = refs.foldl (readConstant p types) c := by
  induction listed generalizing c with
  | nil => rfl
  | @cons r s _ _ here _ ih =>
    have same : readConstant q types c s = readConstant p types c r := by
      unfold readConstant
      rw [alike.inst here]
    rw [List.foldl_cons, List.foldl_cons, same, ih]

theorem agrees_needConstants : Agrees (Alike True ρ) needConstants needConstants Eq := by
  unfold needConstants
  refine .bind_get fun w v alike => ?_
  rw [alike.constants True.intro]
  split
  · exact .pure rfl
  · refine agrees_needTypes.seq fun types => .bind_get fun w v alike => ?_
    have same := readConstants_alike alike.program types (alike.program.module.list .typesValues) {}
    unfold Module.list at same
    dsimp only
    rw [same]
    exact (agrees_setConstants _).seq fun _ => .pure rfl

/-! ### Edits -/

theorem agrees_mapUses (change change' : Program → Uses → Uses) :
    Agrees (Alike K ρ) (mapUses change) (mapUses change') Eq :=
  .modify fun _ _ alike => ⟨alike.program, alike.annotations, alike.types, alike.constants, alike.features⟩

theorem agrees_mapFeatures (change : Features → Features) :
    Agrees (Alike K ρ) (mapFeatures change) (mapFeatures change) Eq :=
  .modify fun _ _ alike => { alike with features := congrArg (Option.map change) alike.features }

theorem agrees_record (r s : InstRef) : Agrees (Alike K ρ) (record r) (record s) Eq :=
  agrees_mapUses _ _

theorem agrees_addCapability (capability : Value) :
    Agrees (Alike K ρ) (addCapability capability) (addCapability capability) Eq := by
  unfold addCapability
  refine .seq_check fun number => ?_
  exact (agrees_edit (Program.agrees_declare _ _)).discard.seq fun _ => agrees_mapFeatures _

theorem agrees_addExtension (name : Value) : Agrees (Alike K ρ) (addExtension name) (addExtension name) Eq :=
  (agrees_edit (Program.agrees_declare _ _)).discard.seq fun _ => agrees_mapFeatures _

theorem agrees_addGlobal (paired : ρ.insts r s) : Agrees (Alike K ρ) (addGlobal r) (addGlobal s) Eq :=
  (agrees_edit (Program.agrees_append _ paired)).seq fun _ => agrees_record r s

theorem agrees_addName (paired : ρ.insts r s) : Agrees (Alike K ρ) (addName r) (addName s) Eq :=
  (agrees_edit (Program.agrees_append _ paired)).seq fun _ => agrees_record r s

theorem agrees_addNote (paired : ρ.insts r s) : Agrees (Alike K ρ) ( addAnnotation r) ( addAnnotation s) Eq := by
  unfold addAnnotation
  refine (agrees_edit (Program.agrees_append _ paired)).seq fun _ => (agrees_record r s).seq fun _ => ?_
  refine .bind_get fun w v alike => ?_
  have known := alike.annotations
  generalize w.facts.annotations = found at known
  generalize v.facts.annotations = found' at known
  cases known with
  | none => exact .pure rfl
  | some related =>
    exact (Agrees.check (related.analyze alike.program paired)).bind fun a b related => agrees_setAnnotations related

theorem agrees_annotate {a b : Annotations} (related : a.Alike ρ b) (target : Value) (opcode : Opcode)
    (operands : List Operand) :
    Agrees (Alike K ρ) (annotate a target opcode operands) (annotate b target opcode operands) ρ.insts := by
  unfold annotate
  refine .bind_get fun w v alike => ?_
  have found := related.find? alike.program target opcode (operands.map Operand.value)
  generalize a.find? w.program target opcode (operands.map Operand.value) = old at found
  generalize b.find? v.program target opcode (operands.map Operand.value) = old' at found
  cases found with
  | some paired => exact .pure paired
  | none =>
    exact (agrees_edit (Program.agrees_newInst _)).bind fun r s paired =>
      (agrees_addNote paired).seq fun _ => .pure paired

theorem agrees_decorate (target : Value) (decoration : Decoration) :
    Agrees (Alike K ρ) (decorate target decoration) (decorate target decoration) ρ.insts := by
  unfold decorate
  refine agrees_needAnnotations.bind fun a b related => ?_
  split
  · exact .seq_check fun number => agrees_annotate related _ _ _
  · exact .throw _

theorem agrees_decorateMember (target : Value) (decoration : Decoration) :
    Agrees (Alike K ρ) (decorateMember target decoration) (decorateMember target decoration) ρ.insts := by
  unfold decorateMember
  refine agrees_needAnnotations.bind fun a b related => ?_
  split
  · exact .seq_check fun number => agrees_annotate related _ _ _
  · exact .throw _

/-! ### Requests -/

theorem agrees_known (ty : Ty) {make : Action Id} (made : Agrees (Alike K ρ) make make Eq) :
    Agrees (Alike K ρ) (known ty make) (known ty make) Eq := by
  unfold known
  refine agrees_needTypes.seq fun t => ?_
  dsimp only
  split
  · exact .pure rfl
  · exact made

theorem agrees_registerType (id : Id) (ty : Ty) : Agrees (Alike K ρ) (registerType id ty) (registerType id ty) Eq :=
  agrees_needTypes.seq fun _ => agrees_setTypes _

theorem agrees_declareNew (ty : Ty) (declaration : Opcode × List Operand) :
    Agrees (Alike K ρ) (declareNew ty declaration) (declareNew ty declaration) Eq := by
  unfold declareNew
  refine (agrees_edit Program.agrees_takeId).seq fun id => ?_
  split
  · exact .seq_check fun text => .throw _
  refine (agrees_edit (Program.agrees_newInst _)).bind fun r s paired => (agrees_addGlobal paired).seq fun _ => ?_
  refine agrees_needAnnotations.discard.seq fun _ => ?_
  refine (Agrees.forM_same _ fun d => (agrees_decorate _ _).discard).seq fun _ => ?_
  refine (Agrees.forM_same _ fun d => (agrees_decorateMember _ _).discard).seq fun _ => ?_
  exact (agrees_registerType id ty).seq fun _ => .pure rfl

mutual

theorem agrees_typeId : (ty : Ty) → Agrees (Alike K ρ) (typeId ty) (typeId ty) Eq
  | .atom form ds => by
      unfold typeId
      exact agrees_known _ (.seq_check fun declaration => agrees_declareNew _ declaration)
  | .wrap form component ds => by
      unfold typeId
      exact agrees_known _ ((agrees_typeId component).seq fun id => agrees_declareNew _ _)
  | .struct members mds ds => by
      unfold typeId
      exact agrees_known _ ((agrees_typeIds members).seq fun ids => agrees_declareNew _ _)
  | .function result parameters ds => by
      unfold typeId
      exact agrees_known _ ((agrees_typeId result).seq fun id => (agrees_typeIds parameters).seq fun ids =>
        agrees_declareNew _ _)

theorem agrees_typeIds : (tys : List Ty) → Agrees (Alike K ρ) (typeIds tys) (typeIds tys) Eq
  | [] => .pure rfl
  | ty :: rest => by
      unfold typeIds
      exact (agrees_typeId ty).seq fun id => (agrees_typeIds rest).seq fun ids => .pure rfl

end

theorem agrees_pointerId (pointee storage : Value) :
    Agrees (Alike K ρ) (pointerId pointee storage) (pointerId pointee storage) Eq := by
  have typed : Agrees (Alike K ρ) (typeOf pointee) (typeOf pointee) Eq := by
    unfold typeOf
    refine agrees_needTypes.seq fun t => ?_
    split
    · exact .pure rfl
    · exact .throw _
  unfold pointerId
  exact typed.seq fun ty => .seq_check fun _ => agrees_typeId _

theorem agrees_constantId (ty : Ty) (value : Value) :
    Agrees (Alike True ρ) (constantId ty value) (constantId ty value) Eq := by
  unfold constantId
  refine agrees_needConstants.seq fun constants => .seq_check fun _ => ?_
  split
  · exact .pure rfl
  refine (agrees_typeId ty).seq fun typeId => (agrees_edit Program.agrees_takeId).seq fun id => ?_
  split
  · exact .throw _
  refine (agrees_edit (Program.agrees_newInst _)).bind fun r s paired => (agrees_addGlobal paired).seq fun _ => ?_
  exact agrees_needConstants.seq fun c => (agrees_setConstants _).seq fun _ => .pure rfl

end Workspace

end BlockTally
