import Slang.Token
import Slang.Operator
/-!
# Syntax trees

Expressions and statements, each with the tokens that a report about it needs. A program is a list
of statements.

A tree that is read from source has no gaps. One that is put together by hand may have them: a
**hole** stands for an expression or a statement that is not there.
-/

namespace Slang

/-- A name where it is written. -/
structure Ident where
  token : Token
  name : Text
  deriving DecidableEq, Repr

/-- A type where it is written. -/
structure TypeNode where
  token : Token
  ty : Ty
  deriving DecidableEq, Repr

/-- A parameter where it is declared. -/
structure ParamDecl where
  name : Ident
  type : TypeNode
  deriving DecidableEq, Repr

/-- Expressions. The token of an operation is its operator, that of a group or a call its opening
parenthesis. -/
inductive Expr where
  | ident (id : Ident)
  | int (token : Token) (value : Int)
  | str (token : Token) (value : Text)
  | bool (token : Token) (value : Bool)
  | unary (token : Token) (op : UnaryOp) (right : Expr)
  | binary (token : Token) (op : BinaryOp) (left right : Expr)
  | group (token : Token) (inner : Expr)
  | call (token : Token) (callee : Ident) (args : List Expr)
  | hole

/-- What a function declaration says before its body. The token is the keyword; without a written
result type the type is inferred from the body. -/
structure FnHead where
  token : Token
  name : Ident
  params : List ParamDecl
  result : Option TypeNode
  deriving DecidableEq, Repr

/-- Statements. The token is the keyword of a declaration or a return, the sign of an assignment, the
opening brace of a block and the first token of an expression. The body of a function has the token
of its opening brace, unless the body is not there. -/
inductive Stmt where
  | letDecl (token : Token) (name : Ident) (type : Option TypeNode) (value : Option Expr)
  | assign (token : Token) (name : Ident) (value : Expr)
  | block (token : Token) (body : List Stmt)
  | ret (token : Token) (value : Option Expr)
  | expr (token : Token) (value : Expr)
  | fn (head : FnHead) (brace : Option Token) (body : List Stmt)
  | hole

instance : Inhabited Expr := ⟨.hole⟩

instance : Inhabited Stmt := ⟨.hole⟩

/-- A program is its statements, in order. -/
abbrev Program := List Stmt

/-- The token of what is not there. -/
def Token.absent : Token := ⟨.eof, [], ⟨0, 0⟩⟩

namespace Expr

/-- The token at which a report about an expression points: the name for a call. -/
def token : Expr → Token
  | ident id => id.token
  | int t _ | str t _ | bool t _ | unary t _ _ | binary t _ _ _ | group t _ => t
  | call _ callee _ => callee.token
  | hole => Token.absent

/-- An expression without the parentheses around it. -/
def ungroup : Expr → Expr
  | group _ e => e.ungroup
  | e => e

/-- Whether an expression is a call. -/
def isCall : Expr → Bool
  | call .. => true
  | _ => false

end Expr

namespace Stmt

/-- The token of a statement. -/
def token : Stmt → Token
  | letDecl t .. | assign t .. | block t _ | ret t _ | expr t _ => t
  | fn head .. => head.token
  | hole => Token.absent

/-- Whether a statement declares a function, and how. -/
def fnHead? : Stmt → Option FnHead
  | fn head .. => some head
  | _ => none

end Stmt

/-- The literal of the first token of a program, or nothing for an empty one. -/
def Program.firstLiteral : Program → Text
  | [] => []
  | s :: _ => s.token.literal

end Slang
