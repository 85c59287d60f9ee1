import Slang.Diagnostic
import Slang.Operator.Fold
import Slang.Symbol
/-!
# Semantic errors and warnings

What can be wrong with the names and types of a program, and how each finding is worded. Two of the
findings are warnings: a name that shadows another, and a result that is not used.
-/

namespace Slang

/-- The causes of semantic errors and warnings. -/
inductive SemanticProblem where
  /-- A name that the scope has already; the line is that of the earlier declaration. -/
  | redeclared (name : Text) (line : Option Int)
  /-- A name that hides one of an outer scope. -/
  | shadows (name described : Text) (line : Int)
  /-- A name that could not be bound for another reason. -/
  | unbindable (name : Text) (cause : SymbolError)
  /-- A symbol that could not be made for a reason no program can give. -/
  | unexpected (cause : SymbolError)
  /-- Two parameters of one name. -/
  | duplicateParameter (name : Text)
  /-- A parameter of a type that has no values. -/
  | parameterTy (name : Text) (ty : Ty)
  /-- A function that would return what no function returns. -/
  | returnTy (function : Text) (ty : Ty)
  /-- A function inside another statement. -/
  | nestedFunction
  /-- A function that has to return a value and does not. -/
  | missingReturn (function : Text) (ty : Ty)
  /-- A variable declared with the result of a function that has none. -/
  | voidInitializer (name : Text)
  /-- A variable declared without a type and with the result of a function that has none. -/
  | voidInferred (name : Text)
  /-- A value of another type than the variable's. -/
  | assignMismatch (got : Ty) (name : Text) (want : Ty)
  /-- A variable of a type that has no values. -/
  | variableTy (name : Text) (ty : Ty)
  /-- An assignment to a name that is not declared. -/
  | assignUndeclared (name : Text)
  /-- An assignment to something that is no variable. -/
  | assignTarget (ty : Ty) (name : Text)
  /-- An assignment of the result of a function that has none. -/
  | voidAssigned (name : Text)
  /-- A return of the result of a function that has none. -/
  | voidReturned (function : Text)
  /-- Two returns of different types, where the type is inferred. -/
  | inconsistentReturn (function : Text) (got first : Ty) (line : Int)
  /-- A value returned from a function without a result. -/
  | valueFromVoid (function : Text)
  /-- A returned value of another type than the function's. -/
  | returnMismatch (got : Ty) (function : Text) (want : Ty)
  /-- An expression whose result is not used. -/
  | unusedResult (written : Text)
  /-- An integer outside the range of the language. -/
  | literalOverflow (literal : Text)
  /-- A name that is not declared. -/
  | undeclared (name : Text)
  /-- A function that is not called. -/
  | functionAsValue (name : Text)
  /-- A prefix operator on a type that it does not take. -/
  | unaryMismatch (op : UnaryOp) (ty : Ty)
  /-- An infix operator on types that it does not take. -/
  | binaryMismatch (left : Ty) (op : BinaryOp) (right : Ty)
  /-- Constants on which an operator gives no value. -/
  | folding (cause : FoldError)
  /-- A function that calls itself before its type is known. -/
  | inferredRecursion (name : Text)
  /-- A call of a name that is not declared. -/
  | undeclaredFunction (name : Text)
  /-- A call of something that is no function. -/
  | notAFunction (name : Text) (ty : Ty)
  /-- A call with too few or too many arguments. -/
  | arity (name : Text) (want got : Nat)
  /-- An argument of another type than the parameter's. -/
  | argument (index : Nat) (function : Text) (got want : Ty)
  deriving DecidableEq, Repr

/-- A text with its first letter in upper case. A text that starts with a byte outside ASCII starts
with the character for unreadable text instead. -/
def Text.capitalized : Text → Text
  | [] => []
  | b :: rest => if b < 128 then Text.upperByte b :: rest else Text.ofChar Text.replacement ++ rest

namespace SemanticProblem

/-- A name between apostrophes. -/
def named (name : Text) : Text := "'" ++ name ++ "'"

/-- How a finding is worded. -/
def message : SemanticProblem → Text
  | redeclared name (some line) =>
    "Symbol " ++ named name ++ " already declared in this scope (first declared at line "
      ++ Text.ofInt line ++ ")"
  | redeclared name none => "Symbol " ++ named name ++ " already declared in this scope"
  | shadows name described line =>
    "Declaration of " ++ named name ++ " shadows " ++ described ++ " declared at line "
      ++ Text.ofInt line
  | unbindable name cause =>
    "Internal Error: Failed to define " ++ named name ++ ": " ++ cause.message
  | unexpected cause => "Internal Error: " ++ cause.message
  | duplicateParameter name => "Duplicate parameter name " ++ named name
  | parameterTy name ty => "Parameter " ++ named name ++ " cannot have type " ++ ty.name
  | returnTy function ty => "Function " ++ named function ++ " cannot return " ++ ty.name
  | nestedFunction => "Functions can only be declared at top level"
  | missingReturn function ty =>
    "Function " ++ named function ++ " must return a value of type " ++ ty.name
  | voidInitializer name =>
    "Cannot assign result of void expression to variable " ++ named name
  | voidInferred name => "Cannot infer type of " ++ named name ++ " from void expression"
  | assignMismatch got name want =>
    "Type mismatch: cannot assign " ++ got.name ++ " to variable " ++ named name ++ " of type "
      ++ want.name
  | variableTy name ty => "Variable " ++ named name ++ " cannot have type " ++ ty.name
  | assignUndeclared name => "Cannot assign to undeclared variable " ++ named name
  | assignTarget ty name => "Cannot assign to " ++ ty.name ++ " " ++ named name
  | voidAssigned name => "Cannot assign result of void expression to " ++ named name
  | voidReturned function => "Cannot return result of void expression from " ++ named function
  | inconsistentReturn function got first line =>
    "Inconsistent return types in " ++ named function ++ ": " ++ got.name ++ " here, "
      ++ first.name ++ " at line " ++ Text.ofInt line
  | valueFromVoid function => "Cannot return value from void function " ++ named function
  | returnMismatch got function want =>
    "Type mismatch: cannot return " ++ got.name ++ " from function " ++ named function
      ++ " expecting " ++ want.name
  | unusedResult written => "Result of expression " ++ named written ++ " is unused"
  | literalOverflow literal => "Integer literal " ++ literal ++ " overflows int"
  | undeclared name => "Undeclared identifier " ++ named name
  | functionAsValue name => "Function " ++ named name ++ " used as a value without calling it"
  | unaryMismatch op ty => "Operator " ++ named op.spelling ++ " not defined for " ++ ty.name
  | binaryMismatch left op right =>
    "Type mismatch: " ++ left.name ++ " " ++ op.spelling ++ " " ++ right.name
  | folding cause => cause.message.capitalized
  | inferredRecursion name =>
    "Function " ++ named name ++ " has an inferred return type and cannot call itself"
  | undeclaredFunction name => "Undeclared function " ++ named name
  | notAFunction name ty => named name ++ " is not a function (it's a " ++ ty.name ++ ")"
  | arity name want got =>
    "Function " ++ named name ++ " expects " ++ Text.ofNat want ++ " arguments, got "
      ++ Text.ofNat got
  | argument index function got want =>
    "Argument " ++ Text.ofNat index ++ " of " ++ named function ++ ": cannot use " ++ got.name
      ++ " as " ++ want.name

/-- Shadowing and unused results are warnings; all else is an error. -/
def severity : SemanticProblem → Severity
  | shadows .. | unusedResult _ => .warning
  | _ => .error

end SemanticProblem

/-- A semantic error or warning at its place. -/
abbrev Finding := Located SemanticProblem

/-- A problem at the position of a token. -/
def Token.finding (t : Token) (p : SemanticProblem) : Finding := ⟨t.pos, p⟩

/-- A finding as a diagnostic. -/
def Finding.diagnostic (f : Finding) : Diagnostic :=
  ⟨f.pos, f.what.severity, .semantic, f.what.message⟩

end Slang
