import Slang.Diagnostic
import Slang.Token
import Slang.Text.Quoted
/-!
# Syntax errors

What can be wrong with the tokens of a source, and how each error is worded.
-/

namespace Slang

/-- The causes of syntax errors. -/
inductive SyntaxProblem where
  /-- A statement at top level that starts with a name and is no assignment. -/
  | topLevelExpression (literal : Text)
  /-- A return at top level. -/
  | returnOutsideFunction
  /-- A statement at top level that starts with another token. -/
  | unexpectedStart (kind : Token.Kind) (literal : Text)
  /-- A function declared inside a function. -/
  | nestedFunction
  /-- A declaration with neither a type nor a value. -/
  | noInitializer (name : Text)
  /-- A function without a body. -/
  | bodyExpected (name : Text) (kind : Token.Kind) (literal : Text)
  /-- Something else in the place of a type. -/
  | typeExpected (kind : Token.Kind) (literal : Text)
  /-- A type keyword that names no type. -/
  | unknownType (literal : Text)
  /-- A parameter list that ends with a comma. -/
  | commaBeforeParen
  /-- A parameter followed by neither a comma nor a closing parenthesis. -/
  | parameterEnd (kind : Token.Kind)
  /-- Something else in the place of a parameter's name. -/
  | parameterName
  /-- A block that is never closed. -/
  | unclosedBlock (kind : Token.Kind) (literal : Text)
  /-- A token that the language does not have. -/
  | illegalToken (literal : Text)
  /-- A token that starts no expression. -/
  | expressionExpected (kind : Token.Kind) (literal : Text)
  /-- An integer of more than 63 bits. -/
  | integerTooLarge (literal : Text)
  /-- A call of something that is no name. -/
  | calleeExpected
  /-- An argument list that ends with a comma. -/
  | commaBeforeEnd (literal : Text)
  /-- The next token is not the expected one. -/
  | expectedNext (want got : Token.Kind) (literal : Text)
  /-- The current token is not the expected one. -/
  | expected (want got : Token.Kind) (literal : Text)
  deriving DecidableEq, Repr

namespace SyntaxProblem

/-- A token in a message: its kind, and its literal in parentheses. -/
def shown (kind : Token.Kind) (literal : Text) : Text :=
  kind.name ++ " ('" ++ literal ++ "')"

/-- How a syntax error is worded. -/
def message : SyntaxProblem → Text
  | topLevelExpression literal =>
    "Expected declaration or assignment at top level, got expression starting with '"
      ++ literal ++ "'"
  | returnOutsideFunction => "'return' statement outside of function"
  | unexpectedStart kind literal =>
    "Unexpected token at start of statement: " ++ shown kind literal
  | nestedFunction => "Functions can only be declared at top level"
  | noInitializer name => "Cannot infer type of '" ++ name ++ "' without an initializer"
  | bodyExpected name kind literal =>
    "Expected '\x7b' to start body of '" ++ name ++ "', got " ++ shown kind literal
  | typeExpected kind literal =>
    "Expected type (int, bool, string, void), got " ++ shown kind literal
  | unknownType literal => "Unknown type '" ++ literal ++ "'"
  | commaBeforeParen => "Unexpected ')' after comma"
  | parameterEnd kind => "Expected ',' or ')' after parameter, got " ++ kind.name
  | parameterName => "Expected parameter name"
  | unclosedBlock kind literal => "Expected '\x7d' to close block, found " ++ shown kind literal
  | illegalToken literal => "Illegal token '" ++ literal ++ "'"
  | expressionExpected kind literal =>
    "No prefix parsing function found for token type " ++ shown kind literal
  | integerTooLarge literal =>
    "Could not parse integer literal '" ++ literal ++ "': strconv.ParseInt: parsing "
      ++ literal.quoted ++ ": value out of range"
  | calleeExpected => "Expected identifier before '(' for function call"
  | commaBeforeEnd literal => "Unexpected '" ++ literal ++ "' after comma in list"
  | expectedNext want got literal =>
    "Expected next token to be " ++ want.name ++ ", got " ++ shown got literal ++ " instead"
  | expected want got literal =>
    "Expected " ++ want.name ++ ", got " ++ shown got literal ++ " instead"

end SyntaxProblem

/-- A syntax error at its place. -/
abbrev Fault := Located SyntaxProblem

/-- A syntax error as a diagnostic. -/
def Fault.diagnostic (f : Fault) : Diagnostic := ⟨f.pos, .error, .syntactic, f.what.message⟩

/-- A problem at the position of a token. -/
def Token.fault (t : Token) (p : SyntaxProblem) : Fault := ⟨t.pos, p⟩

end Slang
