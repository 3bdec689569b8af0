import BlockTally.Grammar.Version

/-! What can go wrong, by cause. The texts are written in one place, `Error.message?`. -/

set_option autoImplicit false

namespace BlockTally

/-- A rule of form that a module breaks. Blocks and functions are named by their ids, instructions by
their texts. -/
inductive Defect where
  | idDefinedTwice (id : Id)
  | idOutsideBound (id bound : Int)
  | undefinedUse (user : String) (id : Value)
  | entryPointWithoutFunction (entryPoint : String)
  | functionWithoutBlocks (function : Id)
  | emptyBlock (block : Id)
  | unterminatedBlock (block : Id)
  | earlyTerminator (block : Id)
  | labelInBlock (block : Id)
  | misplacedVariable (instruction : String) (block : Id)
  | missingFunction (id : Value)
  deriving DecidableEq, Repr

/-- A promise between the parts of the library that does not hold. -/
inductive Violation where
  | nullType (type : String)
  | undeclarableType (type : String)
  | nullConstant (value : Value)
  | notAType (id : Value)
  | membersNotTypes (ids : List Value)
  | unlabeledBlock (function : Id)
  | repeatedLabel (id : Id)
  | untracedBlock (block : Id)
  deriving DecidableEq, Repr

/-- A request that makes no sense as asked. -/
inductive Fault where
  /-- A number is wanted, and a text that is no numeral is given. -/
  | notANumber
  /-- A text stands where a size comparison needs a number. -/
  | incomparable
  /-- The width of an integer type is negative. -/
  | negativeWidth
  /-- An operand, an instruction or another entry that is not there. -/
  | missingEntry
  /-- Too few values to make up a decoration. -/
  | shortDecoration
  /-- The instruction is not in the block it shall leave. -/
  | notInBlock
  /-- A thing is not of the sort, or not in the place, that its use requires. -/
  | inconsistent
  /-- There is no module, instruction, function, block or member to ask. -/
  | detached
  deriving DecidableEq, Repr

inductive Error where
  | illFormed (defect : Defect)
  | invariant (violation : Violation)
  | idsExhausted
  | unknownFunction (id : Value)
  | doesNotFit (value : Value) (type : String)
  | fault (cause : Fault)
  deriving DecidableEq, Repr

/-- An entry that has to be there. -/
def present {α : Type} (entry : Option α) (fault : Fault := .detached) : Except Error α :=
  match entry with
  | some a => .ok a
  | none => .error (.fault fault)

/-- The number that a value denotes, where only a number will do. -/
def Value.number (value : Value) : Except Error Int :=
  present value.number? .notANumber

/-- How an id is written in an instruction. -/
def idText (id : Value) : String :=
  "%" ++ id.text

/-- How a block is named in a message: by its label. -/
def blockText (id : Id) : String :=
  idText id ++ ":"

def functionText (id : Id) : String :=
  "function " ++ idText id

def Defect.message : Defect → String
  | .idDefinedTwice id => "Id " ++ idText id ++ " defined twice"
  | .idOutsideBound id bound => "Id " ++ idText id ++ " is outside of the id bound " ++ toString bound
  | .undefinedUse user id => user ++ " uses undefined id " ++ idText id
  | .entryPointWithoutFunction entryPoint => "Entry point " ++ entryPoint ++ " refers to a missing function"
  | .functionWithoutBlocks function => functionText function ++ " has no blocks"
  | .emptyBlock block => "Block is empty: " ++ blockText block
  | .unterminatedBlock block =>
      "The last instruction of " ++ blockText block ++ " is not a terminator instruction"
  | .earlyTerminator block => "Terminator in the middle of " ++ blockText block
  | .labelInBlock block => "Label inside of " ++ blockText block
  | .misplacedVariable instruction block =>
      "Misplaced variable " ++ instruction ++ " in " ++ blockText block
  | .missingFunction id => "No function with id " ++ idText id ++ " in module"

def Violation.message : Violation → String
  | .nullType type => "Could not create type " ++ type
  | .undeclarableType type => "Cannot declare type " ++ type
  | .nullConstant value => "Could not create constant " ++ value.text
  | .notAType id => "Id " ++ idText id ++ " does not declare a type"
  | .membersNotTypes ids => "Not all members are types: " ++ listText ids
  | .unlabeledBlock function => "Block in " ++ functionText function ++ " has a label without id"
  | .repeatedLabel id => "Label " ++ idText id ++ " is used twice"
  | .untracedBlock block => "Block " ++ idText block ++ " has no trace index"

/-- The text of an error; a fault has none. -/
def Error.message? : Error → Option String
  | .illFormed defect => some defect.message
  | .invariant violation => some violation.message
  | .idsExhausted => some ("Id bound " ++ toString maxIdBound ++ " exhausted")
  | .unknownFunction id => some id.quoted
  | .doesNotFit value type => some (value.text ++ " does not fit in " ++ type)
  | .fault _ => none

/-- An error text as a reader of a log sees it. -/
def quotedMessage (message : String) : String :=
  "\"" ++ message ++ "\""

end BlockTally
