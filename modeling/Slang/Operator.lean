import Slang.Ty
import Slang.Token
/-!
# Operators

The prefix and infix operators, how they are written, how tightly they bind, and which types they
take and give. A tree put together by hand may carry an operator that the language does not have;
it has a spelling and no meaning.
-/

namespace Slang

/-- Operators in front of an operand. -/
inductive UnaryOp where
  | neg
  | not
  | other (spelling : Text)
  deriving DecidableEq, Repr

/-- Operators between two operands. -/
inductive BinaryOp where
  | add | sub | mul | div
  | eq | ne
  | and | or
  | other (spelling : Text)
  deriving DecidableEq, Repr

namespace UnaryOp

/-- How an operator is written. -/
def spelling : UnaryOp → Text
  | neg => "-"
  | not => "!"
  | other s => s

/-- The operator with a given spelling. -/
def ofSpelling (s : Text) : UnaryOp :=
  if s = "-" then neg else if s = "!" then not else other s

/-- The type that an operator takes, which is also the one it gives. -/
def operandTy : UnaryOp → Ty
  | neg => .int
  | not => .bool
  | other _ => .invalid

@[simp] theorem spelling_ofSpelling (s : Text) : (ofSpelling s).spelling = s := by
  unfold ofSpelling
  repeat' split
  all_goals simp_all [spelling]

end UnaryOp

namespace BinaryOp

/-- How an operator is written. -/
def spelling : BinaryOp → Text
  | add => "+"
  | sub => "-"
  | mul => "*"
  | div => "/"
  | eq => "=="
  | ne => "!="
  | and => "&&"
  | or => "||"
  | other s => s

/-- The operator with a given spelling. -/
def ofSpelling (s : Text) : BinaryOp :=
  if s = "+" then add
  else if s = "-" then sub
  else if s = "*" then mul
  else if s = "/" then div
  else if s = "==" then eq
  else if s = "!=" then ne
  else if s = "&&" then and
  else if s = "||" then or
  else other s

@[simp] theorem spelling_ofSpelling (s : Text) : (ofSpelling s).spelling = s := by
  unfold ofSpelling
  repeat' split
  all_goals simp_all [spelling]

/-- The type of an operation, if there is one on operands of these types. Operands have the same
type throughout, and nothing can be done with `void`. -/
def resultTy? (op : BinaryOp) (left right : Ty) : Option Ty :=
  if left ≠ right ∨ left = .void then none
  else
    match op with
    | add => if left = .int ∨ left = .string then some left else none
    | sub | mul | div => if left = .int then some .int else none
    | and | or => if left = .bool then some .bool else none
    | eq | ne => some .bool
    | other _ => none

end BinaryOp

/-! ### Binding -/

/-- **Levels of binding.** A higher level binds more tightly. -/
abbrev Level := Nat

namespace Level

/-- Below every operator. -/
def lowest : Level := 1

/-- Prefix operators bind more tightly than all infix operators. -/
def unary : Level := 7

/-- The argument list of a call binds most tightly. -/
def call : Level := 8

end Level

/-- How tightly an infix operator binds. -/
def BinaryOp.level : BinaryOp → Level
  | or => 2
  | and => 3
  | eq | ne => 4
  | add | sub => 5
  | mul | div => 6
  | other _ => Level.lowest

/-- The infix operator that a kind of token stands for. -/
def Token.Kind.binaryOp? : Token.Kind → Option BinaryOp
  | .or => some .or
  | .and => some .and
  | .eq => some .eq
  | .neq => some .ne
  | .plus => some .add
  | .minus => some .sub
  | .asterisk => some .mul
  | .slash => some .div
  | _ => none

end Slang
