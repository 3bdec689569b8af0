import BlockTally.Facts.Features
import BlockTally.Proofs.Program.Growth
import Mathlib.Data.Set.Basic

/-! The features of a module, as the values that its instructions name.

An instruction names its first operand, so it names the same when it gets more operands. A capability can be given as
a text: its instruction has the number, and what is known of the features has the text.
-/

set_option autoImplicit false

namespace BlockTally

theorem Instruction.value_extended {i : Instruction} {v : Value} (more : List Operand) (found : i.value 0 = .ok v) :
    (i.extended more).value 0 = .ok v := by
  obtain ⟨opcode, typeId, resultId, operands⟩ := i
  cases operands with
  | nil => cases found
  | cons operand rest => exact found

theorem Value.plain_of_number {v : Value} {number : Int} (read : v.number = .ok number) : v.plain = .int number := by
  unfold Value.number present at read
  split at read
  next found =>
    obtain rfl := Except.ok.inj read
    simp only [Value.plain, found]
  next => cases read

namespace Features

open Program

/-- A known entry stands for a value: it is the value, or one of the texts and a numeral for it. -/
def SpelledAs (texts : Set Value) (v entry : Value) : Prop :=
  entry = v ∨ entry ∈ texts ∧ entry.plain = v

/-- The entries stand for the values, each for one of them and each of them under an entry. -/
structure Spells (texts vs : Set Value) (entries : List Value) : Prop where
  value : ∀ entry ∈ entries, ∃ v ∈ vs, SpelledAs texts v entry
  entry : ∀ v ∈ vs, ∃ entry ∈ entries, SpelledAs texts v entry

variable {texts texts' vs : Set Value} {entries : List Value} {v entry : Value}

theorem SpelledAs.mono (h : SpelledAs texts v entry) (more : texts ⊆ texts') : SpelledAs texts' v entry :=
  h.imp_right fun spelled => ⟨more spelled.1, spelled.2⟩

theorem Spells.mono (h : Spells texts vs entries) (more : texts ⊆ texts') : Spells texts' vs entries where
  value entry member := by
    obtain ⟨v, among, spelled⟩ := h.value entry member
    exact ⟨v, among, spelled.mono more⟩
  entry v among := by
    obtain ⟨entry, member, spelled⟩ := h.entry v among
    exact ⟨entry, member, spelled.mono more⟩

/-- Numbers stand for themselves only. -/
theorem Spells.exact (h : Spells texts vs entries) (numbers : ∀ t ∈ texts, ∃ n, t = .int n) : Spells ∅ vs entries := by
  have same {v entry : Value} (spelled : SpelledAs texts v entry) : entry = v := by
    rcases spelled with same | ⟨given, same⟩
    · exact same
    · obtain ⟨n, rfl⟩ := numbers entry given
      exact same
  refine ⟨fun entry member => ?_, fun v among => ?_⟩
  · obtain ⟨v, among, spelled⟩ := h.value entry member
    exact ⟨v, among, .inl (same spelled)⟩
  · obtain ⟨entry, member, spelled⟩ := h.entry v among
    exact ⟨entry, member, .inl (same spelled)⟩

theorem Spells.mem_iff (h : Spells ∅ vs entries) (v : Value) : v ∈ entries ↔ v ∈ vs := by
  constructor
  · intro member
    obtain ⟨v', among, rfl | ⟨none, -⟩⟩ := h.value v member
    · exact among
    · exact none.elim
  · intro among
    obtain ⟨entry, member, rfl | ⟨none, -⟩⟩ := h.entry v among
    · exact member
    · exact none.elim

theorem spells_of_mem_iff (same : ∀ v, v ∈ entries ↔ v ∈ vs) : Spells texts vs entries where
  value entry member := ⟨entry, (same entry).mp member, .inl rfl⟩
  entry v among := ⟨v, (same v).mpr among, .inl rfl⟩

theorem mem_adjoin : v ∈ adjoin entry entries ↔ v ∈ entries ∨ v = entry := by
  unfold adjoin
  split
  next present => exact ⟨.inl, fun either => either.elim (fun old => old) fun here => here ▸ present⟩
  next => simp

theorem Spells.adjoin (h : Spells texts vs entries) (spelled : SpelledAs texts v entry) :
    Spells texts (insert v vs) (adjoin entry entries) where
  value entry' member := by
    rcases mem_adjoin.mp member with old | rfl
    · obtain ⟨v', among, spelled'⟩ := h.value entry' old
      exact ⟨v', .inr among, spelled'⟩
    · exact ⟨v, .inl rfl, spelled⟩
  entry v' among := by
    rcases among with rfl | old
    · exact ⟨entry, mem_adjoin.mpr (.inr rfl), spelled⟩
    · obtain ⟨entry', member, spelled'⟩ := h.entry v' old
      exact ⟨entry', mem_adjoin.mpr (.inl member), spelled'⟩

def values (p : Program) (opcode : Opcode) (refs : List InstRef) : Set Value :=
  {v | ∃ r ∈ refs, (p.inst r).opcode = opcode ∧ (p.inst r).value 0 = .ok v}

structure Names (texts : Set Value) (p : Program) (opcode : Opcode) (refs : List InstRef) (entries : List Value) :
    Prop where
  total : ∀ r ∈ refs, (p.inst r).opcode = opcode → ∃ v, (p.inst r).value 0 = .ok v
  spells : Spells texts (values p opcode refs) entries

variable {p q : Program} {opcode : Opcode} {refs : List InstRef} {r : InstRef}

theorem Names.mono (h : Names texts p opcode refs entries) (more : texts ⊆ texts') :
    Names texts' p opcode refs entries :=
  ⟨h.total, h.spells.mono more⟩

theorem Names.mem_iff (h : Names ∅ p opcode refs entries) (v : Value) : v ∈ entries ↔ v ∈ values p opcode refs :=
  h.spells.mem_iff v

theorem mem_values_of_named (read : named p opcode refs = .ok entries) :
    (∀ r ∈ refs, (p.inst r).opcode = opcode → ∃ v, (p.inst r).value 0 = .ok v) ∧
      ∀ v, v ∈ entries ↔ v ∈ values p opcode refs := by
  obtain ⟨found, passed, last⟩ := except_bind_ok_iff.mp read
  obtain rfl := Except.ok.inj last
  refine ⟨fun r member same => ?_, fun v => ?_⟩
  · exact except_each_of_mapM_ok passed r (List.mem_filter.mpr ⟨member, by simpa using same⟩)
  · rw [List.mem_eraseDups, except_mem_mapM_ok passed]
    simp only [List.mem_filter, decide_eq_true_eq, and_assoc]
    rfl

theorem names_of_named (read : named p opcode refs = .ok entries) : Names texts p opcode refs entries :=
  ⟨(mem_values_of_named read).1, spells_of_mem_iff (mem_values_of_named read).2⟩

/-- A fresh look finds the values themselves. -/
theorem Names.exists_named (h : Names texts p opcode refs entries) :
    ∃ entries', named p opcode refs = .ok entries' ∧ Spells texts {v | v ∈ entries'} entries := by
  have total : ∀ r ∈ refs.filter fun r => (p.inst r).opcode = opcode, ∃ v, (p.inst r).value 0 = .ok v := by
    intro r member
    obtain ⟨listed, same⟩ := List.mem_filter.mp member
    exact h.total r listed (by simpa using same)
  obtain ⟨found, passed⟩ := except_mapM_isOk total
  have read : named p opcode refs = .ok found.eraseDups := except_bind_ok_iff.mpr ⟨found, passed, rfl⟩
  have same : {v | v ∈ found.eraseDups} = values p opcode refs := Set.ext (mem_values_of_named read).2
  exact ⟨_, read, same ▸ h.spells⟩

theorem Names.extended (h : Names texts p opcode refs entries)
    (grown : ∀ r ∈ refs, ∃ more, q.inst r = (p.inst r).extended more) : Names texts q opcode refs entries := by
  have opcodes : ∀ r ∈ refs, (q.inst r).opcode = (p.inst r).opcode := by
    intro r member
    obtain ⟨more, same⟩ := grown r member
    rw [same]
    rfl
  have found {r : InstRef} {v : Value} (member : r ∈ refs) (found : (p.inst r).value 0 = .ok v) :
      (q.inst r).value 0 = .ok v := by
    obtain ⟨more, same⟩ := grown r member
    rw [same]
    exact Instruction.value_extended more found
  have same : values q opcode refs = values p opcode refs := by
    ext v
    constructor
    · rintro ⟨r, member, same, value⟩
      rw [opcodes r member] at same
      obtain ⟨v', value'⟩ := h.total r member same
      obtain rfl := Except.ok.inj (value.symm.trans (found member value'))
      exact ⟨r, member, same, value'⟩
    · rintro ⟨r, member, same, value⟩
      exact ⟨r, member, (opcodes r member).trans same, found member value⟩
  refine ⟨fun r member same => ?_, same ▸ h.spells⟩
  obtain ⟨v, value⟩ := h.total r member (opcodes r member ▸ same)
  exact ⟨v, found member value⟩

/-- An entry is adjoined for a new instruction. -/
theorem Names.adjoin (h : Names texts p opcode refs entries) (same : (p.inst r).opcode = opcode)
    (found : (p.inst r).value 0 = .ok v) (spelled : SpelledAs texts v entry) :
    Names texts p opcode (refs ++ [r]) (adjoin entry entries) := by
  have more : values p opcode (refs ++ [r]) = insert v (values p opcode refs) := by
    ext v'
    constructor
    · rintro ⟨s, among, opcode, value⟩
      rcases List.mem_append.mp among with old | new
      · exact .inr ⟨s, old, opcode, value⟩
      · obtain rfl := List.mem_singleton.mp new
        exact .inl (Except.ok.inj (value.symm.trans found))
    · rintro (rfl | ⟨s, among, rest⟩)
      · exact ⟨r, List.mem_append_right _ (List.mem_singleton_self r), same, found⟩
      · exact ⟨s, List.mem_append_left _ among, rest⟩
  refine ⟨fun s among opcode => ?_, more ▸ h.spells.adjoin spelled⟩
  rcases List.mem_append.mp among with old | new
  · exact h.total s old opcode
  · obtain rfl := List.mem_singleton.mp new
    exact ⟨v, found⟩

/-- Instructions that were made before name what they named when a new one is listed. -/
theorem Names.declared (h : Names texts p opcode refs entries) (held : ∀ r ∈ refs, p.Holds r) (i : Instruction)
    (place : Section) : Names texts ((p.made i).appended place ⟨p.instructions.size⟩) opcode refs entries := by
  refine h.extended fun r member => ⟨[], ?_⟩
  rw [inst_appended, Instruction.extended_nil]
  exact inst_made_of_lt i (held r member)

/-- The features are those that the module declares; the texts may stand for their numbers among the capabilities. -/
structure Reads (texts : Set Value) (f : Features) (p : Program) : Prop where
  capabilities : Names texts p .capability p.module.capabilities f.capabilities
  extensions : Names ∅ p .extension p.module.extensions f.extensions

variable {f : Features}

theorem Reads.mono (h : f.Reads texts p) (more : texts ⊆ texts') : f.Reads texts' p :=
  ⟨h.capabilities.mono more, h.extensions⟩

theorem Reads.extended (h : f.Reads texts p) (capabilities : q.module.capabilities = p.module.capabilities)
    (extensions : q.module.extensions = p.module.extensions)
    (grown : ∀ place, ∀ r ∈ p.module.list place, ∃ more, q.inst r = (p.inst r).extended more) : f.Reads texts q where
  capabilities := capabilities ▸ h.capabilities.extended (grown .capabilities)
  extensions := extensions ▸ h.extensions.extended (grown .extensions)

/-- A capability that is declared last is adjoined as it was given. -/
theorem Reads.capability (h : f.Reads texts p) (held : ∀ place, ∀ r ∈ p.module.list place, p.Holds r) {number : Int}
    (spelled : SpelledAs texts (.int number) entry) : (f.addCapability entry).Reads texts
      ((p.made { opcode := .capability, operands := [⟨.capability, .int number⟩] }).appended .capabilities
        ⟨p.instructions.size⟩) where
  capabilities := by
    refine (h.capabilities.declared (held .capabilities) _ .capabilities).adjoin (v := .int number) ?_ ?_ spelled
    · rw [inst_appended, inst_made]
    · rw [inst_appended, inst_made]
      rfl
  extensions := h.extensions.declared (held .extensions) _ .capabilities

theorem Reads.extension (h : f.Reads texts p) (held : ∀ place, ∀ r ∈ p.module.list place, p.Holds r)
    (text : Value) : (f.addExtension text).Reads texts
      ((p.made { opcode := .extension, operands := [.string text] }).appended .extensions ⟨p.instructions.size⟩) where
  capabilities := h.capabilities.declared (held .capabilities) _ .extensions
  extensions := by
    refine (h.extensions.declared (held .extensions) _ .extensions).adjoin (v := text) ?_ ?_ (.inl rfl)
    · rw [inst_appended, inst_made]
    · rw [inst_appended, inst_made]
      rfl

structure Agrees (texts : Set Value) (f f' : Features) : Prop where
  capabilities : Spells texts {v | v ∈ f'.capabilities} f.capabilities
  extensions : ∀ v, v ∈ f.extensions ↔ v ∈ f'.extensions

theorem reads_ofProgram (read : ofProgram p = .ok f) : f.Reads texts p := by
  obtain ⟨capabilities, first, read⟩ := except_bind_ok_iff.mp read
  obtain ⟨extensions, second, read⟩ := except_bind_ok_iff.mp read
  obtain rfl := Except.ok.inj read
  exact ⟨names_of_named first, names_of_named second⟩

theorem Reads.exists_ofProgram (h : f.Reads texts p) : ∃ f', ofProgram p = .ok f' ∧ f.Agrees texts f' := by
  obtain ⟨capabilities, first, spells⟩ := h.capabilities.exists_named
  obtain ⟨extensions, second, same⟩ := h.extensions.exists_named
  refine ⟨⟨capabilities, extensions⟩, ?_, spells, same.mem_iff⟩
  exact except_bind_ok_iff.mpr ⟨_, first, except_bind_ok_iff.mpr ⟨_, second, rfl⟩⟩

end Features

end BlockTally
