import Slang.Position
/-!
# Diagnostics

A **diagnostic** is something that is said about a place in a source: an error or a warning, found
while reading the source or while analysing it. A list of diagnostics is shown in the order of
positions; diagnostics at the same position stay in the order in which they were found.
-/

namespace Slang

/-- How bad it is. A code that is neither is shown like an error and counts as neither. -/
inductive Severity where
  | error
  | warning
  | other (code : Int)
  deriving DecidableEq, Repr

namespace Severity

/-- The severity with a given number. -/
def ofCode (n : Int) : Severity := if n = 0 then error else if n = 1 then warning else other n

/-- The name of a severity inside a line of text. -/
def title : Severity → Text
  | warning => "Warning"
  | error | other _ => "Error"

/-- The name of a severity as data. -/
def name : Severity → Text
  | warning => "warning"
  | error | other _ => "error"

end Severity

/-- When it was found. -/
inductive Phase where
  | syntactic
  | semantic
  | other (name : Text)
  deriving DecidableEq, Repr

/-- The name of a phase. -/
def Phase.name : Phase → Text
  | syntactic => "Syntax"
  | semantic => "Semantic"
  | other n => n

/-- Something said about a place in a source. -/
structure Diagnostic where
  pos : Position
  severity : Severity
  phase : Phase
  message : Text
  deriving DecidableEq, Repr

namespace Diagnostic

/-- A diagnostic as a line of text. -/
def line (d : Diagnostic) : Text :=
  Text.ofInt d.pos.line ++ ":" ++ Text.ofInt d.pos.column ++ ": " ++ d.phase.name ++ " "
    ++ d.severity.title ++ ": " ++ d.message

/-- Whether a diagnostic is an error. -/
def isError (d : Diagnostic) : Bool := d.severity == .error

/-- Whether a diagnostic is a warning. -/
def isWarning (d : Diagnostic) : Bool := d.severity == .warning

/-- The errors of a list, in its order. -/
def errors (l : List Diagnostic) : List Diagnostic := l.filter isError

/-- The warnings of a list, in its order. -/
def warnings (l : List Diagnostic) : List Diagnostic := l.filter isWarning

/-- Whether a list has an error. -/
def hasErrors (l : List Diagnostic) : Bool := l.any isError

/-- The list in the order of positions. -/
def sort (l : List Diagnostic) : List Diagnostic := l.mergeSort fun a b => a.pos.le b.pos

/-- Each diagnostic of a file on a line of its own, after the path of the file. -/
def render (path : Text) (l : List Diagnostic) : Text :=
  l.flatMap fun d => path ++ ":" ++ d.line ++ "\n"

end Diagnostic

/-- Something at a position of a source. -/
structure Located (α : Type) where
  pos : Position
  what : α
  deriving DecidableEq, Repr

end Slang
