import BlockTally.Error
import BlockTally.Grammar.Enumerants

/-! Types described by their content instead of by an id.

Two descriptions describe the same type when they are equal but for the spelling of storage classes. So a
description with all storage classes written as numbers serves as the key when a declaration is looked for.
-/

set_option autoImplicit false

namespace BlockTally

/-- A decoration with its values; a decoration of a member has the number of the member in front. -/
abbrev Decoration := List Value

/-- Types without components. -/
inductive Atom where
  | void
  | bool
  | integer (width : Value) (signed : Bool)
  | float (width : Value)
  /-- A type whose content is not described; it is known by its declaration. -/
  | named (opcode : Opcode) (id : Id)
  deriving DecidableEq, Repr

/-- Ways to make a type of one component type. -/
inductive Wrapper where
  | vector (count : Value)
  | matrix (count : Value)
  /-- The length is the id of a constant. -/
  | array (length : Value)
  | runtimeArray
  /-- The storage class is a number, or a numeral as it was spelled in a declaration. -/
  | pointer (storage : Value)
  deriving DecidableEq, Repr

inductive Ty where
  | atom (form : Atom) (decorations : List Decoration)
  | wrap (form : Wrapper) (component : Ty) (decorations : List Decoration)
  | struct (members : List Ty) (memberDecorations decorations : List Decoration)
  | function (result : Ty) (parameters : List Ty) (decorations : List Decoration)
  deriving Repr, Inhabited

/-- The storage class as a number. -/
def Wrapper.plain : Wrapper → Wrapper
  | .pointer storage => .pointer storage.plain
  | form => form

theorem Wrapper.plain_plain (form : Wrapper) : form.plain.plain = form.plain := by
  cases form <;> simp [plain, Value.plain_plain]

namespace Ty

mutual

def decEq : (a b : Ty) → Decidable (a = b)
  | .atom f ds, .atom g es =>
      if same : f = g ∧ ds = es then .isTrue (by rw [same.1, same.2])
      else .isFalse fun eq => same (by injection eq; constructor <;> assumption)
  | .wrap f c ds, .wrap g d es =>
      match decEq c d with
      | .isTrue component =>
          if same : f = g ∧ ds = es then .isTrue (by rw [component, same.1, same.2])
          else .isFalse fun eq => same (by injection eq; constructor <;> assumption)
      | .isFalse differ => .isFalse fun eq => differ (by injection eq)
  | .struct ms mds ds, .struct ns nds es =>
      match decEqList ms ns with
      | .isTrue members =>
          if same : mds = nds ∧ ds = es then .isTrue (by rw [members, same.1, same.2])
          else .isFalse fun eq => same (by injection eq; constructor <;> assumption)
      | .isFalse differ => .isFalse fun eq => differ (by injection eq)
  | .function r ps ds, .function s qs es =>
      match decEq r s, decEqList ps qs with
      | .isTrue result, .isTrue parameters =>
          if same : ds = es then .isTrue (by rw [result, parameters, same])
          else .isFalse fun eq => same (by injection eq)
      | .isFalse differ, _ => .isFalse fun eq => differ (by injection eq)
      | _, .isFalse differ => .isFalse fun eq => differ (by injection eq)
  | .atom .., .wrap .. | .atom .., .struct .. | .atom .., .function ..
  | .wrap .., .atom .. | .wrap .., .struct .. | .wrap .., .function ..
  | .struct .., .atom .. | .struct .., .wrap .. | .struct .., .function ..
  | .function .., .atom .. | .function .., .wrap .. | .function .., .struct .. => .isFalse nofun

def decEqList : (as bs : List Ty) → Decidable (as = bs)
  | [], [] => .isTrue rfl
  | a :: as, b :: bs =>
      match decEq a b, decEqList as bs with
      | .isTrue head, .isTrue tail => .isTrue (by rw [head, tail])
      | .isFalse differ, _ => .isFalse fun eq => differ (by injection eq)
      | _, .isFalse differ => .isFalse fun eq => differ (by injection eq)
  | [], _ :: _ => .isFalse nofun
  | _ :: _, [] => .isFalse nofun

end

instance : DecidableEq Ty := decEq

mutual

/-- The type with all storage classes as numbers. -/
def key : Ty → Ty
  | .atom form ds => .atom form ds
  | .wrap form component ds => .wrap form.plain (key component) ds
  | .struct members mds ds => .struct (keys members) mds ds
  | .function result parameters ds => .function (key result) (keys parameters) ds

def keys : List Ty → List Ty
  | [] => []
  | ty :: rest => key ty :: keys rest

end

mutual

theorem key_key : (ty : Ty) → ty.key.key = ty.key
  | .atom .. => by simp [key]
  | .wrap form component ds => by simp [key, key_key component, form.plain_plain]
  | .struct members mds ds => by simp [key, keys_keys members]
  | .function result parameters ds => by simp [key, key_key result, keys_keys parameters]

theorem keys_keys : (tys : List Ty) → keys (keys tys) = keys tys
  | [] => rfl
  | ty :: rest => by simp [keys, key_key ty, keys_keys rest]

end

def integer (width : Value) (signed : Bool) : Ty := .atom (.integer width signed) []

/-- The unsigned integer type of a width. -/
def uint (width : Int) : Ty := integer (.int width) false

def pointer (component : Ty) (storage : Value) : Ty := .wrap (.pointer storage) component []

def decorations : Ty → List Decoration
  | .atom _ ds | .wrap _ _ ds | .struct _ _ ds | .function _ _ ds => ds

/-- The decorations of the members; only a structure has any. -/
def memberDecorations : Ty → List Decoration
  | .struct _ ds _ => ds
  | _ => []

/-- The size of an integer type in whole bytes, rounded down. -/
def byteSize? : Ty → Except Error (Option Int)
  | .atom (.integer (.int width) _) _ => .ok (some (width / 8))
  | .atom (.integer (.str _) _) _ => .error (.fault .incomparable)
  | _ => .ok none

def setDecorations (ds : List Decoration) : Ty → Ty
  | .atom form _ => .atom form ds
  | .wrap form component _ => .wrap form component ds
  | .struct members mds _ => .struct members mds ds
  | .function result parameters _ => .function result parameters ds

def setMemberDecorations (ds : List Decoration) : Ty → Ty
  | .struct members _ own => .struct members ds own
  | ty => ty

end Ty

end BlockTally
