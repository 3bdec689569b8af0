import BlockTally.Workspace.Types

/-! Requests for scalar constants, which are declared only once for each type and value. -/

set_option autoImplicit false

namespace BlockTally.Workspace

/-- Whether a number can be written with so many binary digits. -/
def fits (number width : Nat) : Bool :=
  number = 0 || number.log2 < width

/-- Values of unsigned integer types have to be in range. -/
def checkRange (ty : Ty) (value : Value) : Except Error Unit :=
  match ty with
  | .atom (.integer width false) _ =>
    match value, width with
    | .str _, _ => .error (.fault .incomparable)
    | .int (.negSucc _), _ => do throw (.doesNotFit value (← ty.text))
    | .int (.ofNat _), .str _ => .error (.fault .incomparable)
    | .int (.ofNat _), .int (.negSucc _) => .error (.fault .negativeWidth)
    | .int (.ofNat number), .int (.ofNat width) =>
      if fits number width then .ok () else do throw (.doesNotFit value (← ty.text))
  | _ => .ok ()

/-- The id of a constant, which is declared if it is not. -/
def constantId (ty : Ty) (value : Value) : Action Id := do
  let constants ← needConstants
  checkRange ty value
  match constants.id? ty value with
  | some id => return id
  | none =>
    let typeId ← typeId ty
    let id ← Program.takeId
    if id = 0 then
      throw (.invariant (.nullConstant value))
    let r ← Program.newInst
      { opcode := .constant, typeId, resultId := id, operands := [⟨.literalNumber, value⟩] }
    addGlobal r
    setConstants ((← needConstants).register ty value id)
    return id

/-- The id of a constant of an unsigned integer type. -/
def uintConstantId (value width : Value) : Action Id :=
  constantId (.integer width false) value

end BlockTally.Workspace
