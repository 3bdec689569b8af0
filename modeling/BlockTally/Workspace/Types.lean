import BlockTally.Ty.Text
import BlockTally.Workspace.Edit

/-! Requests for types.

A type is declared only if it has no declaration yet. Its components are declared first, so that their ids
are smaller; its decorations are attached to the new declaration.
-/

set_option autoImplicit false

namespace BlockTally.Workspace

/-- Register a type that an id stands for. -/
def registerType (id : Id) (ty : Ty) : Action Unit := do
  setTypes ((← needTypes).register id ty)

/-- The id of a type that has a declaration; otherwise make one. -/
def known (ty : Ty) (make : Action Id) : Action Id := do
  let id := (← needTypes).id ty
  if id ≠ 0 then return id else make

/-- Declare a type with the given opcode and operands under a new id. -/
def declareNew (ty : Ty) (declaration : Opcode × List Operand) : Action Id := do
  let id ← Program.takeId
  if id = 0 then
    throw (.invariant (.nullType (← ty.text)))
  let r ← Program.newInst { opcode := declaration.1, resultId := id, operands := declaration.2 }
  addGlobal r
  -- The annotations are read even if there is nothing to attach.
  discard <| needAnnotations
  ty.decorations.forM fun d => discard <| decorate (.int id) d
  ty.memberDecorations.forM fun d => discard <| decorateMember (.int id) d
  registerType id ty
  return id

/-- The declaration of a type without components. -/
def atomDeclaration (form : Atom) (ds : List Decoration) : Except Error (Opcode × List Operand) :=
  match Ty.atomDeclaration? form with
  | some declaration => .ok declaration
  | none => do throw (.invariant (.undeclarableType (← (Ty.atom form ds).text)))

mutual

/-- The id of a type, which is declared if it is not. -/
def typeId : Ty → Action Id
  | .atom form ds => known (.atom form ds) do
      declareNew (.atom form ds) (← atomDeclaration form ds)
  | .wrap form component ds => known (.wrap form component ds) do
      let component' ← typeId component
      declareNew (.wrap form component ds) (Ty.wrapDeclaration component' form)
  | .struct members mds ds => known (.struct members mds ds) do
      let ids ← typeIds members
      declareNew (.struct members mds ds) (.typeStruct, Ty.componentOperands ids)
  | .function result parameters ds => known (.function result parameters ds) do
      let id ← typeId result
      let ids ← typeIds parameters
      declareNew (.function result parameters ds) (.typeFunction, Ty.componentOperands (id :: ids))

def typeIds : List Ty → Action (List Id)
  | [] => return []
  | ty :: rest => do
      let id ← typeId ty
      return id :: (← typeIds rest)

end

/-- The type that an id was declared as. -/
def typeOf (id : Value) : Action Ty := do
  match (← needTypes).type? id with
  | some ty => return ty
  | none => throw (.invariant (.notAType id))

/-- The id of the unsigned integer type of a width. -/
def uintId (width : Value) : Action Id :=
  typeId (.integer width false)

/-- The id of the pointer type to what the given id declares. -/
def pointerId (pointee storage : Value) : Action Id := do
  let ty := Ty.pointer (← typeOf pointee) storage
  ty.checkStorage
  typeId ty

/-- The id of the runtime array type over what the given id declares. -/
def runtimeArrayId (element stride : Value) : Action Id := do
  let ty ← typeOf element
  typeId (.wrap .runtimeArray ty [[.int Decoration.arrayStride, stride]])

/-- The id of the structure type of what the given ids declare. -/
def structId (members : List Value) (ds mds : List Decoration) : Action Id := do
  let types ← needTypes
  match members.mapM types.type? with
  | none => throw (.invariant (.membersNotTypes members))
  | some tys => typeId (← (Ty.struct tys [] []).decorated ds mds)

end BlockTally.Workspace
