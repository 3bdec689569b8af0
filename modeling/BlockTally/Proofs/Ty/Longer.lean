import BlockTally.Proofs.Checks
import BlockTally.Proofs.Program.Instrumentation
import BlockTally.Proofs.Ty.Meaning

/-! Declarations that get further operands.

What is listed as an entry point gets operands behind its own, even if it declares a type. A reading of the longer
declaration finds another structure or function, or does not find its components any more. A type in which there are no
functions and only structures of one member is found as before.
-/

set_option autoImplicit false

namespace BlockTally.Ty

inductive Simple : Ty → Prop where
  | atom (form : Atom) (ds : List Decoration) : Simple (.atom form ds)
  | wrap {component : Ty} (form : Wrapper) (ds : List Decoration) (inner : Simple component) :
      Simple (.wrap form component ds)
  | struct {member : Ty} (mds ds : List Decoration) (inner : Simple member) : Simple (.struct [member] mds ds)

/-- The second type may be read in place of the first one, but not in place of a simple type. -/
inductive Blurs : Ty → Ty → Prop where
  | same (ty : Ty) : Blurs ty ty
  | wrap {component component' : Ty} (form : Wrapper) (ds : List Decoration)
      (inner : component.Simple → component' = component) : Blurs (.wrap form component ds) (.wrap form component' ds)
  | struct {members members' : List Ty} (mds ds : List Decoration)
      (inner : (∃ member, members = [member] ∧ member.Simple) → members' = members) :
      Blurs (.struct members mds ds) (.struct members' mds ds)
  | function {result result' : Ty} {parameters parameters' : List Ty} (ds : List Decoration) :
      Blurs (.function result parameters ds) (.function result' parameters' ds)
  | lost {ty : Ty} (form : Atom) (complex : ¬ty.Simple) : Blurs ty (.atom form ty.decorations)

variable {ty ty' component result : Ty} {members parameters : List Ty} {mds ds : List Decoration}

@[simp] theorem simple_atom {form : Atom} : (Ty.atom form ds).Simple :=
  .atom form ds

@[simp] theorem simple_wrap {form : Wrapper} : (Ty.wrap form component ds).Simple ↔ component.Simple := by
  refine ⟨fun h => ?_, .wrap form ds⟩
  cases h with
  | wrap _ _ inner => exact inner

@[simp] theorem simple_struct : (Ty.struct members mds ds).Simple ↔ ∃ member, members = [member] ∧ member.Simple := by
  constructor
  · intro h
    cases h with
    | struct _ _ inner => exact ⟨_, rfl, inner⟩
  · rintro ⟨member, rfl, inner⟩
    exact .struct mds ds inner

@[simp] theorem not_simple_function : ¬(Ty.function result parameters ds).Simple :=
  nofun

theorem Simple.of_key (h : ty.Simple) (same : ty'.key = ty.key) : ty'.Simple := by
  induction h generalizing ty' with
  | atom => exact eq_atom_of_key same ▸ simple_atom
  | wrap _ _ _ ih =>
    cases ty' with
    | wrap =>
      simp only [key, wrap.injEq] at same
      exact simple_wrap.mpr (ih same.2.1)
    | atom | struct | function =>
      simp only [key] at same
      cases same
  | struct _ _ _ ih =>
    obtain ⟨member', rfl, inner⟩ := eq_struct_of_key same
    exact simple_struct.mpr ⟨member', rfl, ih inner⟩

namespace Blurs

theorem eq_of_simple (h : Blurs ty ty') (simple : ty.Simple) : ty' = ty := by
  cases h with
  | same => rfl
  | wrap form ds inner => rw [inner (simple_wrap.mp simple)]
  | struct mds ds inner => rw [inner (simple_struct.mp simple)]
  | function => exact absurd simple not_simple_function
  | lost form complex => exact absurd simple complex

theorem checkStorage (h : Blurs ty ty') (passes : ty.checkStorage = .ok ()) : ty'.checkStorage = .ok () := by
  cases h with
  | same => exact passes
  | wrap form => cases form <;> exact passes
  | struct | function | lost => rfl

/-- The types are decorated alike. -/
theorem decorated {own inside : List Decoration} {d : Ty} (h : Blurs ty ty') (read : ty.decorated own inside = .ok d) :
    ∃ d', ty'.decorated own inside = .ok d' ∧ Blurs d d' := by
  unfold Ty.decorated at *
  obtain ⟨ds, sorted, rest⟩ := except_bind_ok_iff.mp read
  simp only [sorted, bind, Except.bind]
  cases h with
  | same => exact ⟨d, rest, .same d⟩
  | wrap form _ inner =>
    obtain rfl := Except.ok.inj rest
    exact ⟨_, rfl, .wrap form ds inner⟩
  | struct _ _ inner =>
    obtain ⟨mds, sorted', rest⟩ := except_bind_ok_iff.mp rest
    obtain rfl := Except.ok.inj rest
    simp only [setDecorations, sorted']
    exact ⟨_, rfl, .struct mds ds inner⟩
  | function =>
    obtain rfl := Except.ok.inj rest
    exact ⟨_, rfl, .function ds⟩
  -- What was complex is lost as an atom, whatever it was, and stays lost under decorations.
  | lost form complex =>
    refine ⟨.atom form ds, rfl, ?_⟩
    cases ty with
    | atom => exact absurd simple_atom complex
    | wrap =>
      obtain rfl := Except.ok.inj rest
      exact .lost form (by simpa [setDecorations] using complex)
    | function =>
      obtain rfl := Except.ok.inj rest
      exact .lost form not_simple_function
    | struct =>
      obtain ⟨mds, sorted', rest⟩ := except_bind_ok_iff.mp rest
      obtain rfl := Except.ok.inj rest
      exact .lost form (by simpa [setDecorations, setMemberDecorations] using complex)

end Blurs

/-! ### Longer declarations -/

variable {known known' : Value → Option Ty} {i : Instruction} {more : List Operand}

/-- What is read blurs what was read before, where types that are not found are named. -/
def Rereads (before after : Except Error (Option Ty)) : Prop :=
  ∀ ty?, before = .ok ty? → ∃ ty?', after = .ok ty?' ∧
    ∀ form, Blurs (ty?.getD (.atom form [])) (ty?'.getD (.atom form []))

theorem Rereads.of_ok {before after : Except Error (Option Ty)} (same : ∀ ty?, before = .ok ty? → after = .ok ty?) :
    Rereads before after :=
  fun ty? read => ⟨ty?, same ty? read, fun _ => .same _⟩

theorem Rereads.ite {c : Prop} [Decidable c] {first first' second second' : Except Error (Option Ty)}
    (holds : c → Rereads first first') (fails : ¬c → Rereads second second') :
    Rereads (if c then first else second) (if c then first' else second') := by
  split
  next here => exact holds here
  next not => exact fails not

theorem rereads_wrap {place : Nat} {form form' : Except Error Wrapper}
    (same : ∀ v, Option.Rel Blurs (known v) (known' v)) (forms : ∀ f, form = .ok f → form' = .ok f) :
    Rereads (readWrap known i place form) (readWrap known' (i.extended more) place form') := by
  intro ty? read
  unfold readWrap at *
  obtain ⟨v, operand, read⟩ := except_bind_ok_iff.mp read
  simp only [Program.value_extended operand, bind, Except.bind]
  have related := same v
  generalize known v = first, known' v = second at related read
  cases related with
  | none => exact ⟨ty?, read, fun _ => .same _⟩
  | some blurs =>
    obtain ⟨f, formed, rest⟩ := except_bind_ok_iff.mp read
    obtain rfl := Except.ok.inj rest
    simp only [forms f formed]
    exact ⟨_, rfl, fun _ => .wrap f [] blurs.eq_of_simple⟩

theorem rel_mapM {f g : Operand → Option Ty} (same : ∀ o, Option.Rel Blurs (f o) (g o)) (operands : List Operand) :
    Option.Rel (List.Forall₂ Blurs) (operands.mapM f) (operands.mapM g) := by
  induction operands with
  | nil => exact .some .nil
  | cons o rest ih =>
    simp only [List.mapM_cons]
    have related := same o
    generalize f o = first, g o = second at related
    cases related with
    | none => exact .none
    | some blurs =>
      generalize rest.mapM f = others, rest.mapM g = others' at ih
      cases ih with
      | none => exact .none
      | some rest => exact .some (.cons blurs rest)

/-- The components of a longer declaration begin with those that were found before, or one is not found. -/
theorem readComponents_extended (same : ∀ v, Option.Rel Blurs (known v) (known' v)) (i : Instruction)
    (more : List Operand) :
    (readComponents known i = none → readComponents known' (i.extended more) = none) ∧
      ∀ tys, readComponents known i = some tys → ∃ tys', List.Forall₂ Blurs tys tys' ∧
        (readComponents known' (i.extended more) = none ∧ more ≠ [] ∨
          ∃ others, readComponents known' (i.extended more) = some (tys' ++ others) ∧ (more = [] → others = [])) := by
  have related := rel_mapM (fun o => same o.value) i.operands
  have split : readComponents known' (i.extended more) = (do
      let first ← i.operands.mapM fun o => known' o.value
      let others ← more.mapM fun o => known' o.value
      return first ++ others) := List.mapM_append
  rw [split]
  unfold readComponents
  generalize i.operands.mapM (fun o => known o.value) = before, i.operands.mapM (fun o => known' o.value) = after
    at related
  -- The components in front are found alike; only those of the added operands decide about the whole.
  cases related with
  | none => exact ⟨fun _ => rfl, nofun⟩
  | @some tys tys' blurs =>
    refine ⟨nofun, fun tys₀ found => ?_⟩
    obtain rfl := Option.some.inj found
    refine ⟨tys', blurs, ?_⟩
    cases found : more.mapM fun o => known' o.value with
    | none =>
      refine .inl ⟨rfl, ?_⟩
      rintro rfl
      cases found
    | some others =>
      refine .inr ⟨others, rfl, ?_⟩
      rintro rfl
      exact (Option.some.inj found).symm

theorem rereads_struct (same : ∀ v, Option.Rel Blurs (known v) (known' v))
    (longer : more = [] ∨ 2 ≤ i.operands.length) :
    Rereads (.ok ((readComponents known i).map fun members => .struct members [] []))
      (.ok ((readComponents known' (i.extended more)).map fun members => .struct members [] [])) := by
  obtain ⟨unknown, found⟩ := readComponents_extended same i more
  cases before : readComponents known i with
  | none => exact .of_ok fun ty? read => by rw [← read, unknown before]
  | some tys =>
    obtain ⟨tys', blurs, after⟩ := found tys before
    -- A structure with a single member is not made longer, so a simple type stays what it is.
    have alone : ∀ member, tys = [member] → more = [] := by
      rintro member rfl
      have length : i.operands.length = 1 := (readComponents_ok before).length_eq
      exact longer.resolve_right (by omega)
    intro ty? read
    obtain rfl := Except.ok.inj read
    refine ⟨_, rfl, fun form => ?_⟩
    rcases after with ⟨lost, some⟩ | ⟨others, after, none⟩
    · rw [lost]
      refine .lost form fun simple => ?_
      obtain ⟨member, single, -⟩ := simple_struct.mp simple
      exact some (alone member single)
    · rw [after]
      refine .struct [] [] fun ⟨member, single, simple⟩ => ?_
      rw [none (alone member single), List.append_nil]
      subst single
      cases blurs with
      | cons first rest =>
        cases rest
        rw [first.eq_of_simple simple]

def functionOf : Option (List Ty) → Except Error (Option Ty)
  | none => .ok none
  | some [] => .error (.fault .missingEntry)
  | some (result :: parameters) => .ok (some (.function result parameters []))

theorem rereads_function (same : ∀ v, Option.Rel Blurs (known v) (known' v)) :
    Rereads (functionOf (readComponents known i)) (functionOf (readComponents known' (i.extended more))) := by
  obtain ⟨unknown, found⟩ := readComponents_extended same i more
  cases before : readComponents known i with
  | none => exact .of_ok fun ty? read => by rw [← read, unknown before]
  | some tys =>
    obtain ⟨tys', blurs, after⟩ := found tys before
    intro ty? read
    cases blurs with
    | nil => cases read
    | cons =>
      obtain rfl := Except.ok.inj read
      rcases after with ⟨lost, -⟩ | ⟨others, after, -⟩
      · rw [lost]
        exact ⟨_, rfl, fun form => .lost form not_simple_function⟩
      · rw [after]
        exact ⟨_, rfl, fun _ => .function []⟩

/-- A longer declaration is still read. -/
theorem rereads_longer (same : ∀ v, Option.Rel Blurs (known v) (known' v))
    (longer : more = [] ∨ 2 ≤ i.operands.length) :
    Rereads (read? known i) (read? known' (i.extended more)) := by
  have counted (place : Nat) (form : Value → Wrapper) (f : Wrapper) (formed : form <$> i.value place = .ok f) :
      form <$> (i.extended more).value place = .ok f := by
    obtain ⟨v, value, rfl⟩ := value_of_map formed
    rw [Program.value_extended value]
    rfl
  unfold read?
  -- One case for each opcode, in the order in which they are tried.
  refine .ite ?void fun _ => .ite ?bool fun _ => .ite ?integer fun _ => .ite ?float fun _ => .ite ?vector fun _ =>
    .ite ?matrix fun _ => .ite ?array fun _ => .ite ?runtimeArray fun _ => .ite ?pointer fun _ =>
    .ite ?struct fun _ => .ite ?function fun _ => .of_ok fun _ => id
  case void | bool => exact fun _ => .of_ok fun _ => id
  case integer =>
    refine fun _ => .of_ok fun ty? read => ?_
    obtain ⟨width, first, rest⟩ := except_bind_ok_iff.mp read
    obtain ⟨flag, second, last⟩ := except_bind_ok_iff.mp rest
    refine except_bind_ok_iff.mpr ⟨width, Program.value_extended first, ?_⟩
    exact except_bind_ok_iff.mpr ⟨flag, Program.value_extended second, last⟩
  case float =>
    refine fun _ => .of_ok fun ty? read => ?_
    obtain ⟨width, first, last⟩ := except_bind_ok_iff.mp read
    exact except_bind_ok_iff.mpr ⟨width, Program.value_extended first, last⟩
  case vector | matrix | array | pointer => exact fun _ => rereads_wrap same (counted _ _)
  case runtimeArray => exact fun _ => rereads_wrap same fun _ => id
  case struct => exact fun _ => rereads_struct same longer
  case function => exact fun _ => rereads_function same

theorem exists_ofInstruction (same : ∀ v, Option.Rel Blurs (known v) (known' v))
    (longer : more = [] ∨ 2 ≤ i.operands.length) (read : ofInstruction known i = .ok ty) :
    ∃ ty', ofInstruction known' (i.extended more) = .ok ty' ∧ Blurs ty ty' := by
  obtain ⟨ty?, found, rest⟩ := except_bind_ok_iff.mp read
  obtain rfl := Except.ok.inj rest
  obtain ⟨ty?', found', blurs⟩ := rereads_longer same longer ty? found
  exact ⟨_, except_bind_ok_iff.mpr ⟨ty?', found', rfl⟩, blurs _⟩

end BlockTally.Ty
