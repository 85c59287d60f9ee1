import Slang.Position
/-!
# Tokens

A **token** is a piece of source text with a kind, a literal and a position. The literal is the text
that the token stands for: the written bytes for most kinds, the content for a string.
-/

namespace Slang

namespace Token

/-- The kinds of tokens. -/
inductive Kind where
  | lparen | rparen | lbrace | rbrace
  | assign | plus | minus | asterisk | slash | bang | colon | comma | semicolon
  | eq | neq | and | or
  | kwLet | kwFn | kwReturn | kwTrue | kwFalse
  | string | int | ident
  | typeLiteral
  | eof | illegal
  deriving DecidableEq, Repr

/-- The name of a kind, as messages show it. -/
def Kind.name : Kind → Text
  | .lparen => "LPAREN"
  | .rparen => "RPAREN"
  | .lbrace => "LBRACE"
  | .rbrace => "RBRACE"
  | .assign => "ASSIGN"
  | .plus => "PLUS"
  | .minus => "MINUS"
  | .asterisk => "ASTERISK"
  | .slash => "SLASH"
  | .bang => "BANG"
  | .colon => "COLON"
  | .comma => "COMMA"
  | .semicolon => "SEMICOLON"
  | .eq => "EQ"
  | .neq => "NEQ"
  | .and => "AND"
  | .or => "OR"
  | .kwLet => "LET"
  | .kwFn => "FN"
  | .kwReturn => "RETURN"
  | .kwTrue => "TRUE"
  | .kwFalse => "FALSE"
  | .string => "STRING"
  | .int => "INT"
  | .ident => "IDENT"
  | .typeLiteral => "TYPE_LITERAL"
  | .eof => "EOF"
  | .illegal => "ILLEGAL"

/-- Every kind, in the order in which they are declared. -/
def Kind.all : List Kind :=
  [.lparen, .rparen, .lbrace, .rbrace, .assign, .plus, .minus, .asterisk, .slash, .bang, .colon,
    .comma, .semicolon, .eq, .neq, .and, .or, .kwLet, .kwFn, .kwReturn, .kwTrue, .kwFalse, .string, .int,
    .ident, .typeLiteral, .eof, .illegal]

/-- The kind with a given name. -/
def Kind.ofName? (name : Text) : Option Kind := all.find? (·.name == name)

end Token

/-- A token: its kind, what it stands for, and where it starts. -/
structure Token where
  kind : Token.Kind
  literal : Text
  pos : Position
  deriving DecidableEq, Repr

namespace Token

/-- The line on which a token starts. -/
def line (t : Token) : Int := t.pos.line

/-- Whether a token names a type. -/
def isTypeKeyword (t : Token) : Bool := t.kind == .typeLiteral

end Token
end Slang
