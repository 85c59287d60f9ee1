import Slang.Text.Basic
/-!
# Types

The **types** of the language: those that a program can write (`int`, `bool`, `string`, `void`), the
type of a function, and the mark of what has no type. A tree that is put together by hand may carry
a tag that names no type at all; such a tag is equal only to itself and otherwise behaves like
`invalid`.
-/

namespace Slang

/-- The static type of a name or an expression. -/
inductive Ty where
  | invalid
  | int
  | bool
  | string
  | void
  | function
  /-- A tag that names no type. -/
  | unknown (code : Int)
  deriving DecidableEq, Repr

namespace Ty

/-- The number of a type. -/
def code : Ty → Int
  | invalid => 0
  | int => 1
  | bool => 2
  | string => 3
  | void => 4
  | function => 5
  | unknown n => n

/-- The type with a given number. -/
def ofCode (n : Int) : Ty :=
  if n = 0 then invalid
  else if n = 1 then int
  else if n = 2 then bool
  else if n = 3 then string
  else if n = 4 then void
  else if n = 5 then function
  else unknown n

/-- How a type is written. -/
def name : Ty → Text
  | int => "int"
  | bool => "bool"
  | string => "string"
  | void => "void"
  | function => "function"
  | invalid | unknown _ => "invalid"

/-- The descriptor of a type in a compiled class: one letter, or the name of a class between `L` and
`;`. Functions and what has no type have none. -/
def descriptor : Ty → Text
  | int => "I"
  | bool => "Z"
  | string => "Ljava/lang/String;"
  | void => "V"
  | function | invalid | unknown _ => []

/-- Every type, in the order of the numbers. -/
def all : List Ty := [int, bool, string, void, function]

/-- The type that a keyword names. `function` is no keyword: a program cannot write it. -/
def ofKeyword? (w : Text) : Option Ty :=
  if w = "int" then some int
  else if w = "bool" then some bool
  else if w = "string" then some string
  else if w = "void" then some void
  else none

/-- The types that a function may return. -/
def returnable : List Ty := [int, bool, string, void]

/-- Whether a function may return a type. -/
def isReturnable (t : Ty) : Bool := returnable.contains t

@[simp] theorem ofCode_code_of_mem {t : Ty} (h : t ∈ all) : ofCode t.code = t := by
  revert h; revert t; decide

@[simp] theorem code_ofCode (n : Int) : (ofCode n).code = n := by
  unfold ofCode
  repeat' split
  all_goals simp_all [code]

end Ty
end Slang
