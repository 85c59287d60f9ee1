import Slang.Value
/-!
# Symbols

A **symbol** is what a declared name stands for: a variable with a value, or a function with a
signature. It remembers the line of its declaration and whether its type was written or inferred.
Name, line and type never change. The value of a variable may change, and so may the augmented name,
which is unique among the locals of a function.

The parameters of a function are variables of their own. A signature refers to them by number and
keeps their names and types, which never change either.
-/

namespace Slang

/-- The number of a symbol among all symbols that were made. -/
abbrev SymbolId := Nat

/-- A parameter in a signature: which variable it is, and how it was declared. -/
structure Param where
  id : SymbolId
  name : Text
  ty : Ty
  deriving DecidableEq, Repr

/-- The two kinds of symbols. -/
inductive Symbol.Content where
  /-- A variable: its value, and whether the value is known before the program runs. -/
  | variable (value : Value) (calculated : Bool)
  /-- A function: its parameters in order, and the type of its result. -/
  | function (params : List Param) (result : Ty)
  deriving DecidableEq, Repr

/-- What a declared name stands for. -/
structure Symbol where
  name : Text
  line : Int
  inferred : Bool
  augmented : Text
  content : Symbol.Content
  deriving DecidableEq, Repr

/-- Why a symbol cannot be made, read or bound. -/
inductive SymbolError where
  /-- A variable of a type that has no values. -/
  | noDefault (name : Text) (ty : Ty)
  /-- A function that would return what no function returns. -/
  | returnTy (function : Text) (ty : Ty)
  /-- A parameter that is not there. -/
  | missingParam (function : Text) (index : Nat)
  /-- A parameter of a type that has no values. -/
  | paramTy (function param : Text) (ty : Ty)
  /-- A parameter beyond the end of the list. -/
  | noSuchParam (function : Text) (index : Int) (count : Nat)
  /-- A value of another type than the variable's. -/
  | valueTy (name kind : Text) (ty : Ty)
  /-- A name that the scope has already. -/
  | alreadyDeclared (name : Text) (line : Int)
  deriving DecidableEq, Repr

/-- How a symbol error is worded. -/
def SymbolError.message : SymbolError → Text
  | noDefault name ty => "variable " ++ name.quoted ++ ": type has no default value: " ++ ty.name
  | returnTy function ty => "function " ++ function.quoted ++ ": invalid return type: " ++ ty.name
  | missingParam function index =>
    "function " ++ function.quoted ++ ": invalid parameter: parameter " ++ Text.ofNat index
      ++ " is nil"
  | paramTy function param ty =>
    "function " ++ function.quoted ++ ": invalid parameter: " ++ param ++ " has type " ++ ty.name
  | noSuchParam function index count =>
    "function " ++ function.quoted ++ ": parameter index out of range: " ++ Text.ofInt index
      ++ " not in [0, " ++ Text.ofNat count ++ ")"
  | valueTy name kind ty =>
    "variable " ++ name.quoted ++ ": value does not match variable type: " ++ kind ++ " is not "
      ++ ty.name
  | alreadyDeclared name line =>
    "symbol already declared in this scope: '" ++ name ++ "' (first declared at line "
      ++ Text.ofInt line ++ ")"

namespace Symbol

/-- The type of a symbol. -/
def ty (s : Symbol) : Ty :=
  match s.content with
  | .variable v _ => v.ty
  | .function .. => .function

/-- Whether a symbol is a variable. -/
def isVariable (s : Symbol) : Bool :=
  match s.content with
  | .variable .. => true
  | .function .. => false

/-! ### Making symbols -/

/-- A variable that holds a value. -/
def ofValue (name : Text) (line : Int) (v : Value) (calculated : Bool) : Symbol :=
  ⟨name, line, false, name, .variable v calculated⟩

/-- A variable of a type, with the default of the type. -/
def ofTy (ty : Ty) (name : Text) (line : Int) : Except SymbolError Symbol :=
  match Value.default? ty with
  | some v => .ok (ofValue name line v false)
  | none => .error (.noDefault name ty)

/-- A variable of a type that holds what is handed over, which has to be a value of the type. -/
def ofOperand (ty : Ty) (name : Text) (line : Int) (o : Operand) : Except SymbolError Symbol :=
  match o with
  | .value v =>
    if v.ty = ty then .ok (ofValue name line v true)
    -- a type without values is reported before the value is looked at
    else (ofTy ty name line).bind fun _ => .error (.valueTy name o.kindName ty)
  | _ => (ofTy ty name line).bind fun _ => .error (.valueTy name o.kindName ty)

/-- A function without parameters and without a result. -/
def plainFunction (name : Text) (line : Int) : Symbol :=
  ⟨name, line, false, name, .function [] .void⟩

/-- The parameters of a function, counted from `index`: each has to be there and to be a variable. -/
def checkParams (function : Text) : Nat → List (Option Param) → Except SymbolError (List Param)
  | _, [] => .ok []
  | index, none :: _ => .error (.missingParam function index)
  | index, some p :: ps =>
    if p.ty = .function ∨ p.ty = .void ∨ p.ty = .invalid then .error (.paramTy function p.name p.ty)
    else (checkParams function (index + 1) ps).map (p :: ·)

/-- A function with a signature. -/
def ofSignature (name : Text) (line : Int) (params : List (Option Param)) (result : Ty)
    (inferred : Bool) : Except SymbolError Symbol :=
  if result.isReturnable then
    (checkParams name 0 params).map fun ps => ⟨name, line, inferred, name, .function ps result⟩
  else .error (.returnTy name result)

/-! ### Reading symbols -/

/-- The parameters of a function; a variable has none. -/
def params (s : Symbol) : List Param :=
  match s.content with
  | .function ps _ => ps
  | .variable .. => []

/-- A parameter of a function by its place. -/
def param (s : Symbol) (index : Int) : Except SymbolError Param :=
  -- `toNat` would take a negative place for the first one
  match if index < 0 then none else s.params[index.toNat]? with
  | some p => .ok p
  | none => .error (.noSuchParam s.name index s.params.length)

/-- The descriptor of a signature: those of the parameters in parentheses, then that of the result. -/
def signatureDescriptor (params : List Param) (result : Ty) : Text :=
  "(" ++ params.flatMap (·.ty.descriptor) ++ ")" ++ result.descriptor

/-- The descriptor of a symbol. -/
def descriptor (s : Symbol) : Text :=
  match s.content with
  | .variable v _ => v.ty.descriptor
  | .function ps result => signatureDescriptor ps result

/-- A name and its type, as a declaration writes them. -/
def typed (name : Text) (ty : Ty) : Text := name ++ ": " ++ ty.name

/-- A symbol as it would be declared. -/
def describe (s : Symbol) : Text :=
  match s.content with
  | .variable v _ => typed s.name v.ty
  | .function ps result =>
    s.name ++ "(" ++ Text.joinWith ", " (ps.map fun p => typed p.name p.ty) ++ "): " ++ result.name

/-- The known value of a variable, if it is known. -/
def known? (s : Symbol) : Option Value :=
  match s.content with
  | .variable v true => some v
  | _ => none

/-! ### Changing symbols -/

/-- Note whether the value of a variable is known; a function stays as it is. -/
def setCalculated (calculated : Bool) (s : Symbol) : Symbol :=
  match s.content with
  | .variable v _ => { s with content := .variable v calculated }
  | .function .. => s

/-- Store a known value in a variable of its type. -/
def store? (v : Value) (s : Symbol) : Option Symbol :=
  match s.content with
  -- the type of a variable is that of its value, so it does not change
  | .variable old _ => if v.ty = old.ty then some { s with content := .variable v true } else none
  | .function .. => none

/-- Store what is handed over, if it is a value of the variable's type. -/
def storeOperand? (o : Operand) (s : Symbol) : Option Symbol :=
  match o with
  | .value v => s.store? v
  | _ => none

end Symbol
end Slang
