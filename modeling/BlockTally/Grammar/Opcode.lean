import BlockTally.Grammar.Enumeration

/-! Opcodes. Every integer is an opcode; those of the table below have names. -/

set_option autoImplicit false

namespace BlockTally

structure Opcode where
  code : Int
  deriving DecidableEq, Repr, Inhabited

namespace Opcode

abbrev name : Opcode := ⟨5⟩
abbrev memberName : Opcode := ⟨6⟩
abbrev extension : Opcode := ⟨10⟩
abbrev memoryModel : Opcode := ⟨14⟩
abbrev entryPoint : Opcode := ⟨15⟩
abbrev executionMode : Opcode := ⟨16⟩
abbrev capability : Opcode := ⟨17⟩
abbrev typeVoid : Opcode := ⟨19⟩
abbrev typeBool : Opcode := ⟨20⟩
abbrev typeInt : Opcode := ⟨21⟩
abbrev typeFloat : Opcode := ⟨22⟩
abbrev typeVector : Opcode := ⟨23⟩
abbrev typeMatrix : Opcode := ⟨24⟩
abbrev typeImage : Opcode := ⟨25⟩
abbrev typeSampler : Opcode := ⟨26⟩
abbrev typeSampledImage : Opcode := ⟨27⟩
abbrev typeArray : Opcode := ⟨28⟩
abbrev typeRuntimeArray : Opcode := ⟨29⟩
abbrev typeStruct : Opcode := ⟨30⟩
abbrev typeOpaque : Opcode := ⟨31⟩
abbrev typePointer : Opcode := ⟨32⟩
abbrev typeFunction : Opcode := ⟨33⟩
abbrev constantTrue : Opcode := ⟨41⟩
abbrev constant : Opcode := ⟨43⟩
abbrev function : Opcode := ⟨54⟩
abbrev functionParameter : Opcode := ⟨55⟩
abbrev functionEnd : Opcode := ⟨56⟩
abbrev functionCall : Opcode := ⟨57⟩
abbrev var : Opcode := ⟨59⟩
abbrev load : Opcode := ⟨61⟩
abbrev store : Opcode := ⟨62⟩
abbrev accessChain : Opcode := ⟨65⟩
abbrev decorate : Opcode := ⟨71⟩
abbrev memberDecorate : Opcode := ⟨72⟩
abbrev iAdd : Opcode := ⟨128⟩
abbrev atomicIAdd : Opcode := ⟨234⟩
abbrev phi : Opcode := ⟨245⟩
abbrev selectionMerge : Opcode := ⟨247⟩
abbrev label : Opcode := ⟨248⟩
abbrev branch : Opcode := ⟨249⟩
abbrev branchConditional : Opcode := ⟨250⟩
abbrev switch : Opcode := ⟨251⟩
abbrev kill : Opcode := ⟨252⟩
abbrev ret : Opcode := ⟨253⟩
abbrev retValue : Opcode := ⟨254⟩
abbrev unreachable : Opcode := ⟨255⟩

def table : Enumeration where
  title := "Op"
  members :=
    [("OpNop", 0), ("OpUndef", 1), ("OpSourceContinued", 2), ("OpSource", 3), ("OpSourceExtension", 4),
     ("OpName", 5), ("OpMemberName", 6), ("OpString", 7), ("OpLine", 8), ("OpExtension", 10),
     ("OpExtInstImport", 11), ("OpExtInst", 12), ("OpMemoryModel", 14), ("OpEntryPoint", 15),
     ("OpExecutionMode", 16), ("OpCapability", 17), ("OpTypeVoid", 19), ("OpTypeBool", 20), ("OpTypeInt", 21),
     ("OpTypeFloat", 22), ("OpTypeVector", 23), ("OpTypeMatrix", 24), ("OpTypeImage", 25),
     ("OpTypeSampler", 26), ("OpTypeSampledImage", 27), ("OpTypeArray", 28), ("OpTypeRuntimeArray", 29),
     ("OpTypeStruct", 30), ("OpTypeOpaque", 31), ("OpTypePointer", 32), ("OpTypeFunction", 33),
     ("OpConstantTrue", 41), ("OpConstantFalse", 42), ("OpConstant", 43), ("OpConstantComposite", 44),
     ("OpConstantNull", 46), ("OpFunction", 54), ("OpFunctionParameter", 55), ("OpFunctionEnd", 56),
     ("OpFunctionCall", 57), ("OpVariable", 59), ("OpLoad", 61), ("OpStore", 62), ("OpAccessChain", 65),
     ("OpDecorate", 71), ("OpMemberDecorate", 72), ("OpCompositeConstruct", 80), ("OpCompositeExtract", 81),
     ("OpCopyObject", 83), ("OpIAdd", 128), ("OpFAdd", 129), ("OpISub", 130), ("OpIMul", 132),
     ("OpSelect", 169), ("OpIEqual", 170), ("OpULessThan", 176), ("OpSLessThan", 177), ("OpAtomicIAdd", 234),
     ("OpPhi", 245), ("OpLoopMerge", 246), ("OpSelectionMerge", 247), ("OpLabel", 248), ("OpBranch", 249),
     ("OpBranchConditional", 250), ("OpSwitch", 251), ("OpKill", 252), ("OpReturn", 253),
     ("OpReturnValue", 254), ("OpUnreachable", 255), ("OpNoLine", 317), ("OpModuleProcessed", 330)]

/-- The name of an opcode; one outside the table is named by its number. -/
def text (op : Opcode) : String :=
  (table.name? op.code).getD ("Op" ++ toString op.code)

def isKnown (op : Opcode) : Bool :=
  (table.name? op.code).isSome

def ofName? (name : String) : Option Opcode :=
  (table.number? name).map Opcode.mk

/-- The opcodes that end a block. -/
def terminators : List Opcode :=
  [branch, branchConditional, switch, kill, ret, retValue, unreachable]

def isTerminator (op : Opcode) : Bool :=
  terminators.contains op

/-- The opcodes of declarations that the type table reads. -/
def typeDeclarations : List Opcode :=
  [typeVoid, typeBool, typeInt, typeFloat, typeVector, typeMatrix, typeArray, typeRuntimeArray, typeStruct,
   typePointer, typeFunction, typeImage, typeSampler, typeSampledImage, typeOpaque]

def declaresType (op : Opcode) : Bool :=
  typeDeclarations.contains op

end Opcode

end BlockTally
