import BlockTally.Proofs.Workspace.Turns

/-! The services of a workspace.

A workspace finds facts and drops them, takes ids, declares types and constants, and lists features and decorations. But
for the facts that are dropped and the ids that are taken, all this is done in turns.
-/

set_option autoImplicit false

namespace BlockTally.Workspace

open Account Contract

inductive Service where
  | needUses
  | needAnnotations
  | needFeatures
  | needTypes
  | needConstants
  | forget
  | takeId
  | type (ty : Ty)
  | uint (width : Value)
  | pointer (pointee storage : Value)
  | runtimeArray (element stride : Value)
  | struct (members : List Value) (ds mds : List Decoration)
  | constant (ty : Ty) (value : Value)
  | uintConstant (value width : Value)
  | capability (capability : Value)
  | extension (text : Value)
  | decorate (target : Value) (decoration : Decoration)
  | decorateMember (target : Value) (decoration : Decoration)

namespace Service

/-- Do what is asked for. Only a taken id is sure to be a new one, and counts as told. -/
def run : Service → Action (Option Id)
  | .needUses => do discard Workspace.needUses; return none
  | .needAnnotations => do discard Workspace.needAnnotations; return none
  | .needFeatures => do discard Workspace.needFeatures; return none
  | .needTypes => do discard Workspace.needTypes; return none
  | .needConstants => do discard Workspace.needConstants; return none
  | .forget => do forgetFacts; return none
  | .takeId => return some (← (liftM Program.takeId : Action Id))
  | .type ty => do discard (typeId ty); return none
  | .uint width => do discard (uintId width); return none
  | .pointer pointee storage => do discard (pointerId pointee storage); return none
  | .runtimeArray element stride => do discard (runtimeArrayId element stride); return none
  | .struct members ds mds => do discard (structId members ds mds); return none
  | .constant ty value => do discard (constantId ty value); return none
  | .uintConstant value width => do discard (uintConstantId value width); return none
  | .capability c => do addCapability c; return none
  | .extension text => do addExtension text; return none
  | .decorate target decoration => do discard (Workspace.decorate target decoration); return none
  | .decorateMember target decoration => do discard (Workspace.decorateMember target decoration); return none

def after (w : Workspace) (service : Service) : Workspace :=
  Change.finalState (service.run w)

/-- The lengths of arrays that are given. -/
def lengths : Service → List Value
  | .type ty | .constant ty _ => ty.lengths
  | _ => []

variable {sized : Value → Prop} {texts : Set Value} {w : Workspace}

/-- Facts are dropped, an id is taken, or it goes in turns. -/
theorem run_cases (service : Service) (sizes : Sizes (turns sized texts) sized w)
    (given : ∀ v ∈ service.lengths, sized v)
    (told : ∀ c, service = .capability c → w.facts.features ≠ none → c ∈ texts) :
    service = .forget ∨ service = .takeId ∨ (turns sized texts).Keeps service.run w fun answer _ => answer = none := by
  have asked {α : Type} {action : Action α} {post : α → Workspace → Prop} (h : (asks sized).Keeps action w post) :
      (turns sized texts).Keeps (do discard action; return none : Action (Option Id)) w fun answer _ => answer = none :=
    (turns_of_asks h).discard.seq fun _ _ _ => Keeps.pure rfl
  have beside {action : Action Unit} (h : (asides texts ∅).Keeps action w fun _ _ => True) :
      (turns sized texts).Keeps (do action; return none : Action (Option Id)) w fun answer _ => answer = none :=
    (turns_of_asides h).seq fun _ _ _ => Keeps.pure rfl
  cases service with
  | forget => exact .inl rfl
  | takeId => exact .inr (.inl rfl)
  | needUses => exact .inr (.inr (asked (asks_of_finds finds_needUses)))
  | needAnnotations => exact .inr (.inr (asked (asks_of_finds finds_needAnnotations)))
  | needFeatures => exact .inr (.inr (asked (asks_of_finds finds_needFeatures)))
  | needTypes => exact .inr (.inr (asked asks_needTypes))
  | needConstants => exact .inr (.inr (asked asks_needConstants))
  | type ty => exact .inr (.inr (asked (asks_typeId ty given)))
  | uint width => exact .inr (.inr (asked (asks_typeId _ nofun)))
  | pointer pointee storage => exact .inr (.inr (asked (asks_pointerId _ _ sizes.asks)))
  | runtimeArray element stride => exact .inr (.inr (asked (asks_runtimeArrayId _ _ sizes.asks)))
  | struct members ds mds => exact .inr (.inr (asked (asks_structId _ _ _ sizes.asks)))
  | constant ty value => exact .inr (.inr (asked (asks_constantId ty value given)))
  | uintConstant value width => exact .inr (.inr (asked (asks_constantId _ value nofun)))
  | capability c =>
    refine .inr (.inr (beside (asides_addCapability fun number read known => ?_)))
    exact .inr ⟨told c rfl known, Value.plain_of_number read⟩
  | extension text => exact .inr (.inr (beside (asides_addExtension text)))
  | decorate target decoration => exact .inr (.inr (asked (asks_of_notes (notes_decorate _ _))))
  | decorateMember target decoration => exact .inr (.inr (asked (asks_of_notes (notes_decorateMember _ _))))

end Service

end BlockTally.Workspace
