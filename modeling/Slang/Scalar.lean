import Slang.Text.Basic
/-!
# Scalars and records

A **scalar** is a text, an integer or a truth value as reports, settings and log records hold it. A
**record** is a list of named scalars in the order in which they are written.
-/

namespace Slang

/-- A text, an integer or a truth value. -/
inductive Scalar where
  | text (t : Text)
  | int (n : Int)
  | bool (b : Bool)
  deriving DecidableEq, Repr

namespace Scalar

/-- How a truth value is written. -/
def writtenBool (b : Bool) : Text := if b then "true" else "false"

/-- The truth value that a text writes: a digit, a letter or a word, all in one case or with a capital
letter. -/
def truth? (t : Text) : Option Bool :=
  if ["1", "t", "T", "true", "TRUE", "True"].any fun w => t == Text.ofString w then some true
  else if ["0", "f", "F", "false", "FALSE", "False"].any fun w => t == Text.ofString w then some false
  else none

/-- A scalar as plain text. -/
def plain : Scalar → Text
  | text t => t
  | int n => Text.ofInt n
  | bool b => writtenBool b

end Scalar

/-- Named scalars, in order. -/
abbrev Record := List (Text × Scalar)

end Slang
