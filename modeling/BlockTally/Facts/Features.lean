import BlockTally.Program.Basic

/-! The capabilities and extensions of a module. -/

set_option autoImplicit false

namespace BlockTally

structure Features where
  capabilities : List Value := []
  extensions : List Value := []
  deriving DecidableEq, Repr, Inhabited

namespace Features

def adjoin (entry : Value) (entries : List Value) : List Value :=
  if entry ∈ entries then entries else entries ++ [entry]

/-- What the instructions with the opcode name in their first operands. -/
def named (p : Program) (opcode : Opcode) (refs : List InstRef) : Except Error (List Value) := do
  let entries ← (refs.filter fun r => (p.inst r).opcode = opcode).mapM fun r => (p.inst r).value 0
  return entries.eraseDups

def ofProgram (p : Program) : Except Error Features := do
  let capabilities ← named p .capability p.module.capabilities
  let extensions ← named p .extension p.module.extensions
  return { capabilities, extensions }

def hasCapability (f : Features) (capability : Value) : Bool :=
  capability ∈ f.capabilities

def isPromoted (version : Int) (name : Value) : Bool :=
  promotedExtensions.any fun entry => Value.str entry.1 = name && entry.2 ≤ version

/-- Whether an extension is there: by declaration, or because the version has made it part of itself. -/
def hasExtension (f : Features) (p : Program) (name : Value) : Bool :=
  name ∈ f.extensions || isPromoted p.module.version name

def addCapability (f : Features) (capability : Value) : Features :=
  { f with capabilities := adjoin capability f.capabilities }

def addExtension (f : Features) (name : Value) : Features :=
  { f with extensions := adjoin name f.extensions }

end Features

end BlockTally
