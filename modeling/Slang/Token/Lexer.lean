import Slang.Token
import Slang.Text.Utf8
/-!
# From source text to tokens

Reading starts at the first byte and cuts the source into **pieces**: blanks and comments, which are
dropped, and tokens. Each piece is the longest of its class at its place, and no byte is left over:
a byte that begins nothing is a token of kind `illegal` of its own, and so is all that follows an
opening quote or an opening `/*` that is never closed.

A NUL byte ends the source, as the end of the text does. The token `Lexer.eof` stands there.

A piece says how many bytes it takes *after its first*, so every piece takes at least one byte and
reading comes to an end whatever the pieces are.
-/

namespace Slang.Lexer

/-! ### Bytes with a meaning -/

/-- The double quote. -/
def quote : UInt8 := 34

/-- The asterisk. -/
def star : UInt8 := 42

/-- The slash. -/
def slash : UInt8 := 47

/-- The backslash. -/
def backslash : UInt8 := 92

/-- Space, tab, carriage return and line feed separate tokens. -/
def isBlank (b : UInt8) : Bool := b == 32 || b == 9 || b == 13 || b == 10

/-- A word starts with an ASCII letter or an underscore. -/
def isWordStart (b : UInt8) : Bool := Text.isLetter b || b == 95

/-- A word goes on with letters, underscores and digits. -/
def isWordPart (b : UInt8) : Bool := isWordStart b || Text.isDigit b

/-! ### Pieces -/

/-- A piece of source. The number counts the bytes that it takes after its first. -/
inductive Piece where
  /-- Blanks or a comment. -/
  | skip (more : Nat)
  /-- A token. -/
  | token (kind : Token.Kind) (literal : Text) (more : Nat)
  deriving DecidableEq, Repr

/-- The bytes that a piece takes after its first. -/
def Piece.more : Piece → Nat
  | .skip n => n
  | .token _ _ n => n

/-- Keywords and the names of types are words of their own kind; every other word is a name. -/
def wordKind (w : Text) : Token.Kind :=
  if w = "let" then .kwLet
  else if w = "fn" then .kwFn
  else if w = "return" then .kwReturn
  else if w = "true" then .kwTrue
  else if w = "false" then .kwFalse
  else if w = "int" || w = "bool" || w = "string" || w = "void" then .typeLiteral
  else .ident

/-- A word: the longest run of word bytes. -/
def word (b : UInt8) (rest : Text) : Piece :=
  let tail := rest.takeWhile isWordPart
  .token (wordKind (b :: tail)) (b :: tail) tail.length

/-- An integer: the longest run of digits. -/
def number (b : UInt8) (rest : Text) : Piece :=
  let tail := rest.takeWhile Text.isDigit
  .token .int (b :: tail) tail.length

/-- What a backslash and a byte stand for inside a string. -/
def unescape (b : UInt8) : UInt8 := if b = 110 then 10 else if b = 116 then 9 else b

/-- The content of a string whose opening quote has been read, and the bytes up to and including the
closing quote; nothing if the string is never closed. -/
def stringBody : Text → Option (Text × Nat)
  | [] => none
  | b :: rest =>
    if b = quote then some ([], 1)
    else if b = backslash then
      match rest with
      | [] => none
      -- an escaped quote does not close the string
      | e :: rest' => (stringBody rest').map fun (s, n) => (unescape e :: s, n + 2)
    else (stringBody rest).map fun (s, n) => (b :: s, n + 1)

/-- A string, from after its opening quote. -/
def string (rest : Text) : Piece :=
  match stringBody rest with
  | some (s, n) => .token .string s n
  -- the rest of the source goes with it, so nothing is read twice
  | none => .token .illegal "unterminated string literal" rest.length

/-- The bytes up to and including the first `*/`. -/
def commentEnd : Text → Option Nat
  | [] => none
  | b :: rest =>
    if b = star && rest.head? == some slash then some 2 else (commentEnd rest).map (· + 1)

/-- A slash: the start of a comment, or a division sign. A line comment ends before the line feed, a
block comment with the first `*/` after its opening. -/
def slashes (rest : Text) : Piece :=
  match rest with
  | [] => .token .slash [slash] 0
  | b :: body =>
    if b = slash then .skip (rest.takeWhile (· != Text.lineFeed)).length
    else if b = star then
      -- after the star, so that `/*/` does not close itself
      match commentEnd body with
      | some n => .skip (n + 1)
      | none => .token .illegal "unterminated block comment" rest.length
    else .token .slash [slash] 0

/-- The kind of an operator of two bytes. -/
def pairKind? (b c : UInt8) : Option Token.Kind :=
  if b = 61 && c = 61 then some .eq
  else if b = 33 && c = 61 then some .neq
  else if b = 38 && c = 38 then some .and
  else if b = 124 && c = 124 then some .or
  else none

/-- The kind of a punctuation mark or operator of one byte. -/
def markKind? (b : UInt8) : Option Token.Kind :=
  if b = 40 then some .lparen
  else if b = 41 then some .rparen
  else if b = 123 then some .lbrace
  else if b = 125 then some .rbrace
  else if b = 61 then some .assign
  else if b = 43 then some .plus
  else if b = 45 then some .minus
  else if b = 42 then some .asterisk
  else if b = 33 then some .bang
  else if b = 58 then some .colon
  else if b = 44 then some .comma
  else if b = 59 then some .semicolon
  else none

/-- A single byte: a mark, or a stray byte, whose literal is the character with the byte's number. -/
def single (b : UInt8) : Piece :=
  match markKind? b with
  | some kind => .token kind [b] 0
  | none => .token .illegal (Text.ofChar (Char.ofNat b.toNat)) 0

/-- An operator of two bytes where there is one, else a single byte. -/
def mark (b : UInt8) (rest : Text) : Piece :=
  match rest with
  | [] => single b
  | c :: _ =>
    -- a pair is tried first; `&` and `|` have no meaning of their own
    match pairKind? b c with
    | some kind => .token kind [b, c] 1
    | none => single b

/-- The piece at the start of `b :: rest`. -/
def piece (b : UInt8) (rest : Text) : Piece :=
  if isBlank b then .skip 0
  else if isWordStart b then word b rest
  else if Text.isDigit b then number b rest
  else if b = quote then string rest
  else if b = slash then slashes rest
  else mark b rest

/-! ### The whole source -/

/-- The tokens of a text whose first byte stands at `p`. -/
def tokensFrom (p : Position) : Text → List Token
  | [] => []
  | b :: rest =>
    match piece b rest with
    | .skip n => tokensFrom (p.after (b :: rest.take n)) (rest.drop n)
    | .token kind literal n =>
      ⟨kind, literal, p⟩ :: tokensFrom (p.after (b :: rest.take n)) (rest.drop n)
termination_by t => t.length
decreasing_by all_goals (simp only [List.length_drop, List.length_cons]; omega)

/-- The part of a source that is read: all bytes before the first NUL. -/
def readable (src : Text) : Text := src.takeWhile (· != 0)

/-- The tokens of a source, without the one that marks its end. -/
def tokens (src : Text) : List Token := tokensFrom .start (readable src)

/-- The token at the end of a source. Its column is that of the last byte before it, or zero if
there is none on its line. -/
def eof (src : Text) : Token := ⟨.eof, [], (Position.start.after (readable src)).back⟩

end Slang.Lexer
