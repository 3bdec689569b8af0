import BlockTally.Program.Instruction
import BlockTally.Ty.Basic

/-! Types as declared by instructions, apart from their decorations. -/

set_option autoImplicit false

namespace BlockTally.Ty

/-- The opcode and operands that declare a type without components; a named type has no such declaration. -/
def atomDeclaration? : Atom → Option (Opcode × List Operand)
  | .void => some (.typeVoid, [])
  | .bool => some (.typeBool, [])
  | .integer width signed => some (.typeInt, [.literal width, .literal (.int (if signed then 1 else 0))])
  | .float width => some (.typeFloat, [.literal width])
  | .named .. => none

def wrapDeclaration (component : Id) : Wrapper → Opcode × List Operand
  | .vector count => (.typeVector, [.ofId (.int component), .literal count])
  | .matrix count => (.typeMatrix, [.ofId (.int component), .literal count])
  | .array length => (.typeArray, [.ofId (.int component), .ofId length])
  | .runtimeArray => (.typeRuntimeArray, [.ofId (.int component)])
  | .pointer storage => (.typePointer, [⟨.storageClass, storage.plain⟩, .ofId (.int component)])

def componentOperands (components : List Id) : List Operand :=
  components.map fun id => .ofId (.int id)

variable (known : Value → Option Ty) (i : Instruction)

/-- Read a type with one component; the rest of it is only read if the component is known. -/
def readWrap (place : Nat) (form : Except Error Wrapper) : Except Error (Option Ty) := do
  match known (← i.value place) with
  | none => return none
  | some component => return some (.wrap (← form) component [])

/-- The types that all operands stand for, if every one is known. -/
def readComponents : Option (List Ty) :=
  i.operands.mapM fun operand => known operand.value

/-- Read a declaration; there is no result if it refers to an id that is not a known type, or if the
content of the type is not described. -/
def read? : Except Error (Option Ty) :=
  if i.opcode = .typeVoid then .ok (some (.atom .void []))
  else if i.opcode = .typeBool then .ok (some (.atom .bool []))
  else if i.opcode = .typeInt then do
    let width ← i.value 0
    let signed ← i.value 1
    return some (.atom (.integer width signed.isSet) [])
  else if i.opcode = .typeFloat then do
    let width ← i.value 0
    return some (.atom (.float width) [])
  else if i.opcode = .typeVector then readWrap known i 0 (.vector <$> i.value 1)
  else if i.opcode = .typeMatrix then readWrap known i 0 (.matrix <$> i.value 1)
  else if i.opcode = .typeArray then readWrap known i 0 (.array <$> i.value 1)
  else if i.opcode = .typeRuntimeArray then readWrap known i 0 (.ok .runtimeArray)
  else if i.opcode = .typePointer then readWrap known i 1 (.pointer <$> i.value 0)
  else if i.opcode = .typeStruct then
    .ok ((readComponents known i).map fun members => .struct members [] [])
  else if i.opcode = .typeFunction then
    match readComponents known i with
    | none => .ok none
    | some [] => .error (.fault .missingEntry)
    | some (result :: parameters) => .ok (some (.function result parameters []))
  else .ok none

/-- The storage class of a pointer has to be a number or a numeral. -/
def checkStorage : Ty → Except Error Unit
  | .wrap (.pointer storage) .. => discard storage.number
  | _ => .ok ()

/-- The type that an instruction declares, given the types of the ids it may refer to. -/
def ofInstruction : Except Error Ty := do
  return (← read? known i).getD (.atom (.named i.opcode i.resultId) [])

end BlockTally.Ty
