import BlockTally.Ty.Basic

/-! Types as text.

Decorations are shown on integers, arrays and structures only. A decoration without a number has no text,
and neither has a type that would show one.
-/

set_option autoImplicit false

namespace BlockTally

namespace Decoration

def text? : Decoration → Option String
  | [] => none
  | d :: values =>
    let full := table.spell d ++ " " ++ " ".intercalate (values.map Value.text)
    some (String.ofList (Text.trimBlanks full.toList))

def listText? : List Decoration → Option String
  | [] => some ""
  | ds => do return " [" ++ ", ".intercalate (← ds.mapM text?) ++ "]"

end Decoration

namespace Ty

def atomText? (form : Atom) (ds : List Decoration) : Option String :=
  match form with
  | .void => some "void"
  | .bool => some "bool"
  | .integer width signed => do
      return (if signed then "int" else "uint") ++ width.text ++ (← Decoration.listText? ds)
  | .float width => some ("float" ++ width.text)
  | .named _ id => some ("opaque(" ++ idText id ++ ")")

def wrapText? (form : Wrapper) (component : String) (ds : List Decoration) : Option String :=
  match form with
  | .vector count | .matrix count => some ("<" ++ component ++ ", " ++ count.text ++ ">")
  | .array length => do
      return "[" ++ component ++ ", id(" ++ length.text ++ ")]" ++ (← Decoration.listText? ds)
  | .runtimeArray => do return "[" ++ component ++ "]" ++ (← Decoration.listText? ds)
  | .pointer storage => some (component ++ " " ++ StorageClass.table.spell storage ++ "*")

mutual

def text? : Ty → Option String
  | .atom form ds => atomText? form ds
  | .wrap form component ds => do wrapText? form (← text? component) ds
  | .struct members _ ds => do
      return "\x7b" ++ ", ".intercalate (← listText? members) ++ "\x7d" ++ (← Decoration.listText? ds)
  | .function result parameters _ => do
      let result ← text? result
      return result ++ " (" ++ ", ".intercalate (← listText? parameters) ++ ")"

def listText? : List Ty → Option (List String)
  | [] => some []
  | ty :: rest => do
      let head ← text? ty
      return head :: (← listText? rest)

end

def text (ty : Ty) : Except Error String :=
  match ty.text? with
  | some text => .ok text
  | none => .error (.fault .missingEntry)

def inspect (ty : Ty) : Except Error String := do
  return "ty " ++ (← ty.text)

end Ty

end BlockTally
