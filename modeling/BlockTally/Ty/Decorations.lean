import BlockTally.Ty.Basic

/-! Decorations of types.

A type keeps its decorations sorted, so that the order in which they were given does not matter. Sorting
fails if a number meets a text at the first place where two decorations differ.
-/

set_option autoImplicit false

namespace BlockTally

namespace Decoration

/-- The order of decorations: by the first values that differ; a beginning comes before the whole. -/
def le : Decoration → Decoration → Bool
  | [], _ => true
  | _ :: _, [] => false
  | a :: as, b :: bs => if a = b then le as bs else a.le b

def comparable : Decoration → Decoration → Bool
  | a :: as, b :: bs => if a = b then comparable as bs else a.sameKind b
  | _, _ => true

def insert (d : Decoration) : List Decoration → List Decoration
  | [] => [d]
  | e :: rest => if le d e then d :: e :: rest else e :: insert d rest

def insertDistinct (d : Decoration) : List Decoration → List Decoration
  | [] => [d]
  | e :: rest =>
    if d = e then e :: rest
    else if le d e then d :: e :: rest
    else e :: insertDistinct d rest

def allComparable (ds : List Decoration) : Bool :=
  ds.all fun a => ds.all fun b => comparable a b

def sorted (ds : List Decoration) : List Decoration :=
  ds.foldr insert []

def sortedDistinct (ds : List Decoration) : List Decoration :=
  ds.foldr insertDistinct []

/-- Sort and keep repetitions. -/
def sort (ds : List Decoration) : Except Error (List Decoration) :=
  if allComparable ds then .ok (sorted ds) else .error (.fault .incomparable)

/-- Sort and drop repetitions. -/
def sortSet (ds : List Decoration) : Except Error (List Decoration) :=
  if allComparable ds then .ok (sortedDistinct ds) else .error (.fault .incomparable)

/-- Whether one of the decorations has the given number. -/
def anyNumbered (number : Value) : List Decoration → Except Error Bool
  | [] => .ok false
  | [] :: _ => .error (.fault .missingEntry)
  | (d :: _) :: rest => if d = number then .ok true else anyNumbered number rest

end Decoration

namespace Ty

/-- The type with exactly the given decorations; those of members are for structures only. -/
def decorated (ty : Ty) (own members : List Decoration) : Except Error Ty := do
  let ty := ty.setDecorations (← Decoration.sort own)
  match ty with
  | .struct .. => return ty.setMemberDecorations (← Decoration.sort members)
  | _ => return ty

/-- The type with one more decoration: its number, then its values. -/
def withDecoration (ty : Ty) : Decoration → Except Error Ty
  | [] => .error (.fault .shortDecoration)
  | d :: values => do
    let number ← d.number
    return ty.setDecorations (← Decoration.sortSet ((.int number :: values) :: ty.decorations))

/-- The structure with one more decoration of a member: the member, then number and values. Other types
have no members. -/
def withMemberDecoration : Ty → Decoration → Except Error Ty
  | .struct members mds ds, member :: d :: values => do
    let number ← d.number
    return .struct members (← Decoration.sortSet ((member :: .int number :: values) :: mds)) ds
  | .struct .., _ => .error (.fault .shortDecoration)
  | _, _ => .error (.fault .detached)

def hasDecoration (ty : Ty) (number : Value) : Except Error Bool :=
  Decoration.anyNumbered number ty.decorations

end Ty

end BlockTally
