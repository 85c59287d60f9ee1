import Slang.Ty
import Slang.Text.Quoted
/-!
# Constant values

A **value** is a constant of one of the types that a variable can have: a 32-bit integer, a truth
value or a text. An **operand** is what a caller hands over where a value is expected: it may be a
value, but also nothing or an integer of 64 bits, which is a value of no type.
-/

namespace Slang

/-- A constant of the language. -/
inductive Value where
  | int (n : Int32)
  | bool (b : Bool)
  | str (s : Text)
  deriving DecidableEq, Repr

namespace Value

/-- The type of a constant. -/
def ty : Value → Ty
  | int _ => .int
  | bool _ => .bool
  | str _ => .string

/-- What a variable of a type holds before anything is stored in it. -/
def default? : Ty → Option Value
  | .int => some (int 0)
  | .bool => some (bool false)
  | .string => some (str [])
  | _ => none

/-- The default of a type, or what is said about a type that has none. -/
def defaultOf (ty : Ty) : Except Text Value :=
  match default? ty with
  | some v => .ok v
  | none => .error ("type has no default value: " ++ ty.name)

/-- How a constant is shown: a text in quotes. -/
def written : Value → Text
  | int n => Text.ofInt n.toInt
  | bool true => "true"
  | bool false => "false"
  | str s => s.quoted

theorem ty_of_default? {t : Ty} {v : Value} (h : default? t = some v) : v.ty = t := by
  cases t <;> simp_all [default?] <;> subst h <;> rfl

end Value

/-- Something handed over where a value is expected. -/
inductive Operand where
  | value (v : Value)
  | wide (n : Int)
  | missing
  deriving DecidableEq, Repr

/-- The name of what an operand is, as messages show it. -/
def Operand.kindName : Operand → Text
  | value (.int _) => "int32"
  | value (.bool _) => "bool"
  | value (.str _) => "string"
  | wide _ => "int64"
  | missing => "<nil>"

end Slang
