import BlockTally.Proofs.Program.WellFormed
import BlockTally.Proofs.Text.Lines

/-! Which lines of a listing show which instructions.

A listing shows rows: the header, an empty row before each function, and the instructions in layout order. Texts among
the operands are written as they are, so a row is broken into lines where such a text has a line feed, and nowhere else.
A module without such texts is listed with one line for each row.
-/

set_option autoImplicit false

namespace BlockTally

open Text (lineFeeds lineFeeds_append lineFeeds_toString)

/-! ### What is written of an instruction -/

namespace Enumeration

variable {e : Enumeration}

theorem lineFeeds_members : ∀ e ∈ enumerations, ∀ entry ∈ e.members, lineFeeds entry.1 = 0 := by
  decide +kernel

theorem lineFeeds_name (listed : e ∈ enumerations) {number : Int} {name : String}
    (found : e.name? number = some name) : lineFeeds name = 0 := by
  obtain ⟨entry, here, rfl⟩ := Option.map_eq_some_iff.mp found
  exact lineFeeds_members e listed entry (List.mem_of_find?_eq_some here)

theorem lineFeeds_spell (listed : e ∈ enumerations) (value : Value) :
    lineFeeds (e.spell value) = lineFeeds value.text := by
  cases value with
  | str text => rfl
  | int number =>
    have numeral : lineFeeds (Value.int number).text = 0 := lineFeeds_toString number
    rw [numeral]
    cases found : e.name? number with
    | none => rw [spell, valueName?, found, Option.getD_none, numeral]
    | some name => rw [spell, valueName?, found, Option.getD_some, lineFeeds_name listed found]

end Enumeration

theorem OperandKind.mem_enumerations {kind : OperandKind} {e : Enumeration} (found : kind.enumeration? = some e) :
    e ∈ enumerations := by
  cases kind <;> simp_all [enumeration?, enumerations]

theorem lineFeeds_idText (id : Value) : lineFeeds (idText id) = lineFeeds id.text := by
  have sign : lineFeeds "%" = 0 := by decide
  rw [idText, lineFeeds_append, sign, Nat.zero_add]

/-- However an operand is written, the line feeds are those of its value. -/
theorem Operand.lineFeeds_text (operand : Operand) : lineFeeds operand.text = lineFeeds operand.value.text := by
  have quote : lineFeeds "\"" = 0 := by decide
  unfold text
  split
  · exact lineFeeds_idText _
  · exact lineFeeds_idText _
  · exact lineFeeds_idText _
  · rw [lineFeeds_append, lineFeeds_append, quote, Nat.zero_add, Nat.add_zero]
  · split
    next e found => exact e.lineFeeds_spell (OperandKind.mem_enumerations found) operand.value
    next => rfl

theorem Opcode.lineFeeds_text (op : Opcode) : lineFeeds op.text = 0 := by
  have start : lineFeeds "Op" = 0 := by decide
  unfold text
  cases found : table.name? op.code with
  | none => rw [Option.getD_none, lineFeeds_append, start, lineFeeds_toString]
  | some name =>
    have listed : table ∈ enumerations := List.mem_cons_self ..
    exact Enumeration.lineFeeds_name listed found

namespace Instruction

def lineFeeds (i : Instruction) : Nat :=
  (i.operands.map fun operand => Text.lineFeeds operand.value.text).sum

theorem lineFeeds_text (i : Instruction) : Text.lineFeeds i.text = i.lineFeeds := by
  have written (id : Int) : Text.lineFeeds (idText id) = 0 := (lineFeeds_idText id).trans (lineFeeds_toString id)
  have operands : (i.operands.map Operand.text).map Text.lineFeeds =
      i.operands.map fun operand => Text.lineFeeds operand.value.text := by
    rw [List.map_map]
    exact List.map_congr_left fun operand _ => operand.lineFeeds_text
  have body : Text.lineFeeds (" ".intercalate (i.opcode.text ::
      ((if i.hasType then [idText i.typeId] else []) ++ i.operands.map Operand.text))) = i.lineFeeds := by
    rw [Text.lineFeeds_intercalate (by decide), List.map_cons, List.sum_cons, List.map_append, List.sum_append,
      operands, i.opcode.lineFeeds_text]
    cases i.hasType <;> simp [lineFeeds, written]
  have equals : Text.lineFeeds " = " = 0 := by decide
  unfold text
  dsimp only
  rw [apply_ite Text.lineFeeds, lineFeeds_append, lineFeeds_append, body, written, equals, Nat.zero_add, ite_self]

end Instruction

namespace Program

/-! ### Rows -/

/-- What a listing shows in one place. -/
inductive Row where
  | note (text : String)
  /-- An instruction that is not in the body of a block. -/
  | outer (r : InstRef)
  /-- An instruction in the body of a block. -/
  | inner (r : InstRef)
  deriving DecidableEq, Repr

namespace Row

def inst? : Row → Option InstRef
  | note _ => none
  | outer r | inner r => some r

@[simp] theorem inst?_note (text : String) : inst? (note text) = none := rfl

@[simp] theorem inst?_outer (r : InstRef) : inst? (outer r) = some r := rfl

@[simp] theorem inst?_inner (r : InstRef) : inst? (inner r) = some r := rfl

end Row

variable {p : Program} {f : FuncRef}

def rowText (p : Program) : Row → String
  | .note text => text
  | .outer r => p.instText r
  | .inner r => "  " ++ p.instText r

def rowLineFeeds (p : Program) (row : Row) : Nat :=
  (row.inst?.map fun r => (p.inst r).lineFeeds).getD 0

def blockRows (p : Program) (b : BlockRef) : List Row :=
  .outer (p.block b).label :: (p.body b).map .inner

def instRows (p : Program) (f : FuncRef) : List Row :=
  let function := p.function f
  (function.definition :: function.parameters).map .outer ++ function.blocks.flatMap p.blockRows ++
    [.outer function.endMark]

def functionRows (p : Program) (f : FuncRef) : List Row :=
  .note "" :: p.instRows f

def rows (p : Program) : List Row :=
  p.header.map .note ++ p.module.globals.map .outer ++ p.module.functions.flatMap p.functionRows

/-- The number of the empty row before a function. The functions are numbered as well. -/
def firstRow (p : Program) (j : Nat) : Nat :=
  3 + p.module.globals.length + ((p.module.functions.take j).map fun f => 1 + (p.functionInsts f).length).sum

theorem map_rowText_blockRows (p : Program) (b : BlockRef) : (p.blockRows b).map p.rowText = p.blockLines b := by
  simp [blockRows, blockLines, rowText, Function.comp_def]

theorem map_rowText_functionRows (p : Program) (f : FuncRef) :
    (p.functionRows f).map p.rowText = p.functionLines f := by
  simp [functionRows, instRows, functionLines, List.map_flatMap, map_rowText_blockRows, rowText, Function.comp_def]

theorem map_rowText_rows (p : Program) : p.rows.map p.rowText = p.lines := by
  simp [rows, lines, List.map_flatMap, map_rowText_functionRows, rowText, Function.comp_def]

theorem map_inst?_instRows (p : Program) (f : FuncRef) :
    (p.instRows f).map Row.inst? = (p.functionInsts f).map some := by
  simp [instRows, functionInsts, blockRows, List.map_flatMap, Function.comp_def]

theorem length_instRows (p : Program) (f : FuncRef) : (p.instRows f).length = (p.functionInsts f).length := by
  simpa using congrArg List.length (p.map_inst?_instRows f)

theorem length_functionRows (p : Program) (f : FuncRef) :
    (p.functionRows f).length = 1 + (p.functionInsts f).length := by
  rw [functionRows, List.length_cons, length_instRows, Nat.add_comm]

theorem length_rows (p : Program) : p.rows.length = 3 + p.module.globals.length +
    (p.module.functions.map fun f => 1 + (p.functionInsts f).length).sum := by
  simp only [rows, List.length_append, List.length_map, List.length_flatMap, length_functionRows]
  rfl

theorem filterMap_functionRows (p : Program) (f : FuncRef) :
    (p.functionRows f).filterMap Row.inst? = p.functionInsts f := by
  calc (p.functionRows f).filterMap Row.inst?
    _ = ((p.instRows f).map Row.inst?).filterMap id := by rw [List.filterMap_map]; rfl
    _ = p.functionInsts f := by rw [map_inst?_instRows, List.filterMap_map]; exact List.filterMap_some

/-- Each instruction that a module lists has a row of its own. -/
theorem filterMap_rows (p : Program) : p.rows.filterMap Row.inst? = p.allInsts := by
  simp [rows, allInsts, List.filterMap_flatMap, filterMap_functionRows, Function.comp_def]

/-! ### The numbers of rows -/

theorem getElem?_flatMap {α β : Type} {g : α → List β} {l : List α} {a : α} {j k : Nat} (found : l[j]? = some a)
    (inside : k < (g a).length) : (l.flatMap g)[((l.take j).map fun a => (g a).length).sum + k]? = (g a)[k]? := by
  induction l generalizing j with
  | nil => cases found
  | cons first rest ih =>
    cases j with
    | zero =>
      obtain rfl := Option.some.inj found
      rw [List.flatMap_cons, List.take_zero, List.map_nil, List.sum_nil, Nat.zero_add, List.getElem?_append_left inside]
    | succ j =>
      rw [List.flatMap_cons, List.take_succ_cons, List.map_cons, List.sum_cons, Nat.add_assoc,
        List.getElem?_append_right (Nat.le_add_right _ _), Nat.add_sub_cancel_left]
      exact ih found

theorem rows_global {k : Nat} {r : InstRef} (found : p.module.globals[k]? = some r) :
    p.rows[3 + k]? = some (.outer r) := by
  have inside : k < p.module.globals.length := (List.getElem?_eq_some_iff.mp found).1
  have header : (p.header.map Row.note).length = 3 := rfl
  rw [rows, List.append_assoc, ← header, List.getElem?_append_right (Nat.le_add_right _ _), Nat.add_sub_cancel_left,
    List.getElem?_append_left (by simpa using inside), List.getElem?_map, found, Option.map_some]

theorem rows_function {j k : Nat} (found : p.module.functions[j]? = some f) (inside : k < (p.functionRows f).length) :
    p.rows[p.firstRow j + k]? = (p.functionRows f)[k]? := by
  have front : (p.header.map Row.note ++ p.module.globals.map Row.outer).length = 3 + p.module.globals.length := by
    rw [List.length_append, List.length_map, List.length_map]
    rfl
  rw [rows, firstRow, Nat.add_assoc, ← front, List.getElem?_append_right (Nat.le_add_right _ _),
    Nat.add_sub_cancel_left, ← getElem?_flatMap found inside]
  simp only [length_functionRows]

theorem rows_functionNote {j : Nat} (found : p.module.functions[j]? = some f) :
    p.rows[p.firstRow j]? = some (.note "") := by
  have inside : 0 < (p.functionRows f).length := Nat.succ_pos _
  rw [← Nat.add_zero (p.firstRow j), rows_function found inside, functionRows, List.getElem?_cons_zero]

/-- The instructions of a function have the numbers behind that of its empty row. -/
theorem rows_functionInst {j k : Nat} {r : InstRef} (found : p.module.functions[j]? = some f)
    (listed : (p.functionInsts f)[k]? = some r) : (p.rows[p.firstRow j + 1 + k]?).bind Row.inst? = some r := by
  have inside : 1 + k < (p.functionRows f).length := by
    have short : k < (p.functionInsts f).length := (List.getElem?_eq_some_iff.mp listed).1
    rw [length_functionRows]
    omega
  have same : ((p.instRows f)[k]?).map Row.inst? = some (some r) := by
    rw [← List.getElem?_map, map_inst?_instRows, List.getElem?_map, listed]
    rfl
  rw [Nat.add_assoc, rows_function found inside, functionRows, Nat.add_comm 1 k, List.getElem?_cons_succ]
  obtain ⟨row, here, own⟩ := Option.map_eq_some_iff.mp same
  rw [here, Option.bind_some, own]

/-! ### Line feeds of rows -/

theorem lineFeeds_header (p : Program) {line : String} (listed : line ∈ p.header) : lineFeeds line = 0 := by
  have texts : lineFeeds "; SPIR-V" = 0 ∧ lineFeeds "; Version: " = 0 ∧ lineFeeds "." = 0 ∧
      lineFeeds "; Bound: " = 0 := by decide
  obtain ⟨first, second, point, third⟩ := texts
  simp only [header, List.mem_cons, List.not_mem_nil, or_false] at listed
  rcases listed with rfl | rfl | rfl
  · exact first
  · simp only [lineFeeds_append, second, point, lineFeeds_toString]
  · rw [lineFeeds_append, third, lineFeeds_toString]

theorem lineFeeds_note {text : String} (listed : .note text ∈ p.rows) : lineFeeds text = 0 := by
  have place : text ∈ p.header ∨ (∃ f, f ∈ p.module.functions) ∧ text = "" := by
    simpa [rows, functionRows, instRows, blockRows] using listed
  rcases place with header | ⟨-, rfl⟩
  · exact p.lineFeeds_header header
  · rfl

theorem lineFeeds_rowText {row : Row} (listed : row ∈ p.rows) : lineFeeds (p.rowText row) = p.rowLineFeeds row := by
  cases row with
  | note text => exact lineFeeds_note listed
  | outer r => exact (p.inst r).lineFeeds_text
  | inner r =>
    have margin : lineFeeds "  " = 0 := by decide
    rw [rowText, lineFeeds_append, margin, Nat.zero_add]
    exact (p.inst r).lineFeeds_text

theorem map_lineFeeds_rowText {rows : List Row} (listed : rows ⊆ p.rows) :
    (rows.map p.rowText).map lineFeeds = rows.map p.rowLineFeeds := by
  rw [List.map_map]
  exact List.map_congr_left fun row member => lineFeeds_rowText (listed member)

theorem sum_rowLineFeeds (p : Program) (rows : List Row) : (rows.map p.rowLineFeeds).sum =
    ((rows.filterMap Row.inst?).map fun r => (p.inst r).lineFeeds).sum := by
  induction rows with
  | nil => rfl
  | cons row rest ih =>
    rw [List.map_cons, List.sum_cons, ih]
    cases row <;> simp [rowLineFeeds, List.filterMap_cons]

/-! ### Lines -/

/-- No text among the operands has a line feed. This is not asked of operands that are ids, which are numbers in a valid
module. -/
def SingleLined (p : Program) : Prop :=
  ∀ r ∈ p.allInsts, ∀ operand ∈ (p.inst r).operands, operand.isId = false → '\n' ∉ operand.value.text.toList

instance : Decidable p.SingleLined :=
  inferInstanceAs (Decidable (∀ r ∈ p.allInsts, ∀ operand ∈ (p.inst r).operands,
    operand.isId = false → '\n' ∉ operand.value.text.toList))

theorem WellFormed.lineFeeds_of_isId (h : p.WellFormed) {r : InstRef} (listed : r ∈ p.allInsts) {operand : Operand}
    (among : operand ∈ (p.inst r).operands) (isId : operand.isId = true) : lineFeeds operand.value.text = 0 := by
  have used : operand.value ∈ (p.inst r).usedIds :=
    List.mem_append_right _ (List.mem_map_of_mem (List.mem_filter.mpr ⟨among, isId⟩))
  obtain ⟨id, -, same⟩ := h.defined r listed operand.value used
  rw [same]
  exact lineFeeds_toString id

theorem WellFormed.singleLined_iff (h : p.WellFormed) :
    p.SingleLined ↔ (p.allInsts.map fun r => (p.inst r).lineFeeds).sum = 0 := by
  have each (r : InstRef) : (p.inst r).lineFeeds = 0 ↔
      ∀ operand ∈ (p.inst r).operands, lineFeeds operand.value.text = 0 := by
    rw [Instruction.lineFeeds, List.sum_eq_zero_iff, List.forall_mem_map]
  rw [List.sum_eq_zero_iff, List.forall_mem_map]
  simp only [each]
  refine forall₂_congr fun r listed => forall₂_congr fun operand among => ?_
  rw [← Text.lineFeeds_eq_zero_iff]
  -- Ids are numbers here, so nothing is left out by asking other operands only.
  constructor
  · intro plain
    cases isId : operand.isId with
    | true => exact h.lineFeeds_of_isId listed among isId
    | false => exact plain isId
  · intro none _
    exact none

theorem lines_listing (p : Program) : Text.lines (p.listing "") = (p.rows.map p.rowText).flatMap Text.parts := by
  have unmoved : p.lines.map ("" ++ ·) = p.lines := by simp
  rw [listing, unmoved, Text.lines_linesText, map_rowText_rows]

theorem linesText_lines_listing (p : Program) : linesText (Text.lines (p.listing "")) = p.listing "" :=
  Text.linesText_lines _

theorem length_lines_listing (p : Program) : (Text.lines (p.listing "")).length =
    p.rows.length + (p.allInsts.map fun r => (p.inst r).lineFeeds).sum := by
  rw [lines_listing, Text.length_flatMap_parts, List.length_map, map_lineFeeds_rowText (List.Subset.refl _),
    sum_rowLineFeeds, filterMap_rows]

/-- A row begins with the line of its number, but for the line feeds before it. -/
theorem exists_split_lines {front back : List Row} {row : Row} (split : p.rows = front ++ row :: back) :
    ∃ before own after, Text.lines (p.listing "") = before ++ own ++ after ∧
      before.length = front.length + (front.map p.rowLineFeeds).sum ∧
      own.length = 1 + p.rowLineFeeds row ∧ linesText own = p.rowText row ++ "\n" := by
  have listed : front ++ row :: back ⊆ p.rows := split ▸ List.Subset.refl _
  have first : front ⊆ p.rows := (List.append_subset.mp listed).1
  have here : row ∈ p.rows := listed (List.mem_append_right _ (List.mem_cons_self ..))
  refine ⟨(front.map p.rowText).flatMap Text.parts, Text.parts (p.rowText row),
    (back.map p.rowText).flatMap Text.parts, ?_, ?_, ?_, Text.linesText_parts _⟩
  · rw [lines_listing, split]
    simp
  · rw [Text.length_flatMap_parts, List.length_map, map_lineFeeds_rowText first]
  · rw [Text.length_parts, lineFeeds_rowText here, Nat.add_comm]

structure Shows (p : Program) (text : String) : Prop where
  /-- The text is its lines, and nothing stands behind the last line feed. -/
  ended : linesText (Text.lines text) = text
  /-- Besides the header there is a row for each instruction, and one more for each function. -/
  count : p.rows.length = 3 + p.module.globals.length +
    (p.module.functions.map fun f => 1 + (p.functionInsts f).length).sum
  /-- The rows show the instructions in layout order. -/
  insts : p.rows.filterMap Row.inst? = p.allInsts
  global : ∀ (k : Nat) r, p.module.globals[k]? = some r → p.rows[3 + k]? = some (.outer r)
  function : ∀ (j : Nat) f, p.module.functions[j]? = some f → p.rows[p.firstRow j]? = some (.note "") ∧
    ∀ (k : Nat) r, (p.functionInsts f)[k]? = some r → (p.rows[p.firstRow j + 1 + k]?).bind Row.inst? = some r
  /-- A row is on one line more for each line feed that its instruction is written with. -/
  lines : (Text.lines text).length = p.rows.length + (p.allInsts.map fun r => (p.inst r).lineFeeds).sum
  split : ∀ front row back, p.rows = front ++ row :: back → ∃ before own after,
    Text.lines text = before ++ own ++ after ∧ before.length = front.length + (front.map p.rowLineFeeds).sum ∧
      own.length = 1 + p.rowLineFeeds row ∧ linesText own = p.rowText row ++ "\n"
  /-- There are as many lines as rows, and the lines are the rows by number, just if no text has a line feed. -/
  lines_iff : (Text.lines text).length = p.rows.length ↔ p.SingleLined
  rows_iff : Text.lines text = p.rows.map p.rowText ↔ p.SingleLined

/-- A valid module is printed, one instruction after the other. Each is on a line of its own, whose number tells which
instruction it is, exactly if no text among the operands has a line feed. -/
theorem shows_of_print (p : Program) (valid : p.validate = .ok ()) :
    ∃ text, p.print "" true = .ok text ∧ p.Shows text := by
  have single := (validate_ok_iff.mp valid).singleLined_iff
  have count := p.length_lines_listing
  have printed : p.print "" true = .ok (p.listing "") := by
    rw [print, if_pos rfl, valid]
    rfl
  refine ⟨p.listing "", printed, {
    ended := p.linesText_lines_listing
    count := p.length_rows
    insts := p.filterMap_rows
    global := fun _ _ => rows_global
    function := fun _ _ found => ⟨rows_functionNote found, fun _ _ => rows_functionInst found⟩
    lines := count
    split := fun _ _ _ => exists_split_lines
    lines_iff := ?_
    rows_iff := ?_ }⟩
  · rw [count, single, Nat.add_eq_left]
  · rw [single, lines_listing, Text.flatMap_parts_eq_iff, map_lineFeeds_rowText (List.Subset.refl _), sum_rowLineFeeds,
      filterMap_rows]

/-- A module with the source text that it was made from, and one function. -/
def sourced (source : String) : Program where
  instructions := ⟨#[
    ⟨{ opcode := ⟨3⟩, operands := [.literal (.int 2), .literal (.int 450), .string (.str source)] }, none⟩,
    ⟨{ opcode := .typeVoid, resultId := 1 }, none⟩,
    ⟨{ opcode := .typeFunction, resultId := 2, operands := [.ofId (.int 1)] }, none⟩,
    ⟨{ opcode := .function, typeId := 1, resultId := 3,
       operands := [⟨.functionControl, .int FunctionControl.none⟩, .ofId (.int 2)] }, none⟩,
    ⟨{ opcode := .label, resultId := 4 }, none⟩,
    ⟨{ opcode := .ret }, some ⟨0⟩⟩,
    ⟨{ opcode := .functionEnd }, none⟩]⟩
  blocks := ⟨#[{ label := ⟨4⟩, function := some ⟨0⟩, body := [⟨5⟩] }]⟩
  functions := ⟨#[{ definition := ⟨3⟩, blocks := [⟨0⟩], endMark := ⟨6⟩, added := true }]⟩
  module := { idBound := 5, debugs1 := [⟨0⟩], typesValues := [⟨1⟩, ⟨2⟩], functions := [⟨0⟩] }

/-- A source text of one line. The quotes in it are not escaped either. -/
theorem shows_of_print_sourced : let p := sourced "buffer \"b\"; void main() \x7b\x7d"
    p.validate = .ok () ∧ ∃ text, p.print "" true = .ok text ∧ Text.lines text =
      ["; SPIR-V", "; Version: 1.0", "; Bound: 5", "OpSource 2 450 \"buffer \"b\"; void main() \x7b\x7d\"",
       "%1 = OpTypeVoid", "%2 = OpTypeFunction %1", "", "%3 = OpFunction %1 NONE %2", "%4 = OpLabel", "  OpReturn",
       "OpFunctionEnd"] := by
  intro p
  have valid : p.validate = .ok () := by decide +kernel
  obtain ⟨text, printed, shows⟩ := shows_of_print p valid
  have rows : Text.lines text = p.rows.map p.rowText := shows.rows_iff.mpr (by decide +kernel)
  exact ⟨valid, text, printed, rows.trans (by decide +kernel)⟩

/-- A valid module whose source text has two lines. It is printed as twelve lines, where one for each instruction would
make eleven in all: the fifth shows no instruction, and those behind it are one further down. -/
theorem not_shown_of_sourced :
    let p := sourced "#version 450\nvoid main() \x7b\x7d"
    let shown := ["; SPIR-V", "; Version: 1.0", "; Bound: 5", "OpSource 2 450 \"#version 450", "void main() \x7b\x7d\"",
      "%1 = OpTypeVoid", "%2 = OpTypeFunction %1", "", "%3 = OpFunction %1 NONE %2", "%4 = OpLabel", "  OpReturn",
      "OpFunctionEnd"]
    p.validate = .ok () ∧ p.print "" true = .ok (linesText shown) ∧ Text.lines (linesText shown) = shown ∧
      shown.length ≠ 3 + p.module.globals.length +
        (p.module.functions.map fun f => 1 + (p.functionInsts f).length).sum := by
  intro p shown
  have listed : p.listing "" = linesText shown := by decide +kernel
  have printed : p.print "" true = .ok (p.listing "") := by rfl
  have whole : (shown.map lineFeeds).sum = 0 := by decide +kernel
  have lines : Text.lines (linesText shown) = shown := by
    rw [Text.lines_linesText, Text.flatMap_parts_eq_iff.mpr whole]
  exact ⟨by decide +kernel, printed.trans (congrArg Except.ok listed), lines, by decide⟩

end Program

end BlockTally
