import BlockTally.Workspace.Basic

/-! Edits of a workspace. They change the program and bring the facts found so far along. -/

set_option autoImplicit false

namespace BlockTally.Workspace

def mapUses (change : Program → Uses → Uses) : Action Unit :=
  modify fun w => { w with facts := { w.facts with uses := w.facts.uses.map (change w.program) } }

def mapFeatures (change : Features → Features) : Action Unit :=
  modify fun w => { w with facts := { w.facts with features := w.facts.features.map change } }

/-- Record what an instruction defines and uses. -/
def record (r : InstRef) : Action Unit :=
  mapUses fun p u => u.record r (p.inst r)

/-- Record the uses of an instruction whose operands changed. -/
def recordUses (r : InstRef) : Action Unit :=
  mapUses fun p u => u.recordUses r (p.inst r)

def addCapability (capability : Value) : Action Unit := do
  let number ← capability.number
  discard <| Program.declare .capabilities { opcode := .capability, operands := [⟨.capability, .int number⟩] }
  mapFeatures (·.addCapability capability)

def addExtension (name : Value) : Action Unit := do
  discard <| Program.declare .extensions { opcode := .extension, operands := [.string name] }
  mapFeatures (·.addExtension name)

/-- Append a type, a constant or a global variable to the declarations. -/
def addGlobal (r : InstRef) : Action Unit := do
  Program.append .typesValues r
  record r

/-- Append a debug name. -/
def addName (r : InstRef) : Action Unit := do
  Program.append .debugs2 r
  record r

def addAnnotation (r : InstRef) : Action Unit := do
  Program.append .annotations r
  record r
  let w ← get
  match w.facts.annotations with
  | none => return ()
  | some a => setAnnotations (← a.analyze w.program r)

/-- Annotate an id, unless the very same annotation is there. -/
def annotate (a : Annotations) (target : Value) (opcode : Opcode) (operands : List Operand) :
    Action InstRef := do
  match a.find? (← get).program target opcode (operands.map Operand.value) with
  | some r => return r
  | none =>
    let r ← Program.newInst { opcode, operands := .ofId target :: operands }
    addAnnotation r
    return r

/-- Decorate an id: a decoration is its number, then its values. -/
def decorate (target : Value) (decoration : Decoration) : Action InstRef := do
  let a ← needAnnotations
  match decoration with
  | d :: values =>
    let number ← d.number
    annotate a target .decorate (⟨.decoration, .int number⟩ :: values.map .literal)
  | _ => throw (.fault .shortDecoration)

/-- Decorate a member of a structure: the member, then number and values of the decoration. -/
def decorateMember (target : Value) (decoration : Decoration) : Action InstRef := do
  let a ← needAnnotations
  match decoration with
  | member :: d :: values =>
    let number ← d.number
    annotate a target .memberDecorate
      (.literal member :: ⟨.decoration, .int number⟩ :: values.map .literal)
  | _ => throw (.fault .shortDecoration)

end BlockTally.Workspace
