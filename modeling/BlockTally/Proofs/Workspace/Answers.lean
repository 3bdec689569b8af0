import BlockTally.Proofs.Workspace.Services
import BlockTally.Proofs.Workspace.Denoting

/-! Ids that are handed out.

Whatever was asked of a valid module before, the id that a request answers with is the result id of a declaration of the
module. A request for a type never answers with the null id. A request for a constant does if the module began with the
constant, declared without a result id: it is found in the table like any other.
-/

set_option autoImplicit false

namespace BlockTally.Workspace

open Account Contract

namespace Service

def ask? : Service → Option (Action Id)
  | .type ty => some (typeId ty)
  | .uint width => some (uintId width)
  | .pointer pointee storage => some (pointerId pointee storage)
  | .runtimeArray element stride => some (runtimeArrayId element stride)
  | .struct members ds mds => some (structId members ds mds)
  | .constant ty value => some (constantId ty value)
  | .uintConstant value width => some (uintConstantId value width)
  | _ => none

def constant? : Service → Option (Ty × Value)
  | .constant ty value => some (ty, value)
  | .uintConstant value width => some (.integer width false, value)
  | _ => none

end Service

variable {p : Program} {w w' : Workspace} {α : Type}

/-! ### Sequences of requests -/

theorem continues_finalState {change : Action α} {post : α → Workspace → Prop} (h : w.Continues p)
    (k : (recording p).Keeps change w post) : (Change.finalState (change w)).Continues p :=
  Change.After.finalState (Change.After.mono k (fun _ _ held => (held.1 h).continues)
    fun _ _ held => (held.1 h).continues)

/-- What is asked for is granted as long as the workspace goes on from the program. -/
theorem recording_ask {service : Service} {ask : Action Id} (h : w.Continues p) (asks : service.ask? = some ask) :
    (recording p).Keeps ask w fun id w' => (∃ ty, w'.Denotes id ty) ∨
      ∃ ty value, service.constant? = some (ty, value) ∧ w'.program.HasConstant id value := by
  cases service with
  | type ty | uint width =>
    obtain rfl := Option.some.inj asks
    exact (recording_typeId _ h).mono fun _ _ _ denotes => .inl ⟨_, denotes⟩
  | pointer pointee storage =>
    obtain rfl := Option.some.inj asks
    refine (recording_pointerId _ _ h).mono fun _ _ _ held => ?_
    obtain ⟨ty, number, -, -, denotes⟩ := held
    exact .inl ⟨_, denotes⟩
  | runtimeArray element stride =>
    obtain rfl := Option.some.inj asks
    refine (recording_runtimeArrayId _ _ h).mono fun _ _ _ held => ?_
    obtain ⟨ty, -, denotes⟩ := held
    exact .inl ⟨_, denotes⟩
  | struct members ds mds =>
    obtain rfl := Option.some.inj asks
    refine (recording_structId _ _ _ h).mono fun _ _ _ held => ?_
    obtain ⟨tys, own, inner, -, denotes⟩ := held
    exact .inl ⟨_, denotes⟩
  | constant ty value | uintConstant value width =>
    obtain rfl := Option.some.inj asks
    exact (recording_constantId _ _ h).mono fun _ _ _ declared => .inr ⟨_, _, rfl, declared⟩
  -- Other services do not answer with an id.
  | _ => cases asks

/-- One service leaves the workspace going on from the program, also if it fails. -/
theorem Continues.after {service : Service} (h : w.Continues p) : (service.after w).Continues p := by
  have silent {action : Action Unit} {post : Unit → Workspace → Prop} (k : (recording p).Keeps action w post) :
      (Change.finalState ((do action; return none : Action (Option Id)) w)).Continues p := by
    have kept : (recording p).Keeps (do action; return none : Action (Option Id)) w fun _ _ => True :=
      k.seq fun _ _ _ => Keeps.pure True.intro
    exact continues_finalState h kept
  have asked {ask : Action Id} (asks : service.ask? = some ask) :=
    silent (recording_ask h asks).discard
  unfold Service.after
  cases service with
  | needUses => exact silent (recording_of_finds finds_needUses).discard
  | needAnnotations => exact silent (recording_of_finds finds_needAnnotations).discard
  | needFeatures => exact silent (recording_of_finds finds_needFeatures).discard
  | needTypes => exact silent (recording_needTypes h).discard
  | needConstants => exact silent (recording_needConstants h).discard
  | forget => exact Change.After.finalState (.bind (.modify (.pure h.forget)))
  | takeId =>
    exact Change.After.finalState (.bind (after_takeId (fun _ => h) fun _ => .pure h.nextBound.continues))
  | capability c =>
    exact silent (recording_of_asides
      (asides_addCapability fun _ read _ => .inr ⟨Set.mem_univ c, Value.plain_of_number read⟩))
  | extension text => exact silent (recording_of_asides (asides_addExtension text))
  | decorate target d => exact silent (recording_of_notes (notes_decorate target d)).discard
  | decorateMember target d => exact silent (recording_of_notes (notes_decorateMember target d)).discard
  | type | uint | pointer | runtimeArray | struct | constant | uintConstant => exact asked rfl

theorem continues_of_services (h : w.Continues p) (services : List Service) :
    (services.foldl Service.after w).Continues p := by
  induction services generalizing w with
  | nil => exact h
  | cons service rest ih => exact ih h.after

/-! ### Declared ids -/

/-- What an id denotes, its declaration tells of. -/
theorem Denotes.told {id : Id} {ty : Ty} (h : w.Denotes id ty) (continues : w.Continues p) :
    ∃ i t, w.facts.types = some t ∧ w.program.Declares i ∧ i.resultId = id ∧ Ty.Told t.type? i ty := by
  obtain ⟨nonzero, t, found, ty', known, same⟩ := h
  obtain ⟨i, declared, result, tells⟩ := (continues.types t found).told id ty' known nonzero
  exact ⟨i, t, found, declared, result, tells.congr same⟩

/-- After any requests on a valid module the next request for a type or a constant is answered, if it is, with the
result id of a declaration; a null id is that of a constant that the module had to begin with. -/
theorem declared_of_requests (valid : p.validate = .ok ()) (closed : p.Closed) (services : List Service)
    {service : Service} {ask : Action Id} (asks : service.ask? = some ask) :
    Then ask (services.foldl Service.after { program := p }) fun id w' =>
      (∃ i, w'.program.Declares i ∧ i.resultId = id) ∧
        (id = 0 → ∃ ty value, service.constant? = some (ty, value) ∧ p.HasConstant 0 value) := by
  have start := continues_of_services (continues_of_validate valid closed) services
  refine Change.After.mono (recording_ask start asks) (fun id w' held => ?_) fun _ _ _ => True.intro
  obtain ⟨move, ⟨ty, denotes⟩ | ⟨ty, value, constant, declared⟩⟩ := held
  · obtain ⟨i, -, -, declares, result, -⟩ := denotes.told (move start).continues
    exact ⟨⟨i, declares, result⟩, fun zero => absurd zero denotes.1⟩
  · refine ⟨?_, fun zero => ⟨ty, value, constant, (move start).continues.hasConstant_zero (zero ▸ declared)⟩⟩
    obtain ⟨i, declares, -, result, -⟩ := declared
    exact ⟨i, declares, result⟩

/-- A type is declared and annotated, and the tables are forgotten and read again. -/
def sampleServices : List Service :=
  [.uint (.int 32), .decorate (.int 2) [.int 2], .forget, .needTypes]

/-- A constant is asked for in the end. -/
theorem declared_of_requests_sample : ∃ w' i, uintConstantId (.int 7) (.int 32)
      (sampleServices.foldl Service.after { program := decoratedInteger }) = .ok 4 w' ∧
      w'.program.Declares i ∧ i.resultId = 4 := by
  have ran := Change.eq_ok_of_answer (by decide +kernel : Change.answer? (uintConstantId (.int 7) (.int 32)
    (sampleServices.foldl Service.after { program := decoratedInteger })) = some 4)
  have declared := declared_of_requests (p := decoratedInteger) (by decide +kernel) (by decide) sampleServices
    (show Service.ask? (.uintConstant (.int 7) (.int 32)) = _ from rfl)
  obtain ⟨⟨i, declares, result⟩, -⟩ := declared.of_ok ran
  exact ⟨_, i, ran, declares, result⟩

def unnumberedConstant : Program where
  instructions := ⟨#[
    { instruction := { opcode := .typeInt, resultId := 1, operands := [.literal (.int 32), .literal (.int 0)] } },
    { instruction := { opcode := .constant, typeId := 1, operands := [⟨.literalNumber, .int 5⟩] } }]⟩
  module := { idBound := 2, typesValues := [⟨0⟩, ⟨1⟩] }

/-- Such a constant is handed out under the null id. -/
theorem not_nonzero_of_asked : ¬∀ (p : Program) (service : Service) (ask : Action Id) (id : Id) (w' : Workspace),
    p.validate = .ok () → p.Closed → service.ask? = some ask → ask { program := p } = .ok id w' → id ≠ 0 := by
  intro always
  have ran := Change.eq_ok_of_answer (by decide +kernel :
    Change.answer? (uintConstantId (.int 5) (.int 32) { program := unnumberedConstant }) = some 0)
  exact always unnumberedConstant (.uintConstant (.int 5) (.int 32)) _ 0 _ (by decide +kernel) (by decide) rfl ran rfl

end BlockTally.Workspace
