import Slang.Text.Utf16
/-!
# The characters of a YAML document

A document is read as a list of **cells**: characters with their places. Every kind of line break
that stands for a plain one is one cell, and a last cell marks the end, so that a reader always has
a character to look at.
-/

namespace Slang.Yaml

/-! ### Classes of characters -/

/-- Characters that end a line. -/
def isBreak (c : Char) : Bool :=
  c = '\n' || c = '\r' || c.toNat = 0x85 || c.toNat = 0x2028 || c.toNat = 0x2029

/-- Characters that separate words on a line. -/
def isBlank (c : Char) : Bool := c = ' ' || c = '\t'

/-- The mark of byte order. -/
def byteOrderMark : Char := Char.ofNat 0xFEFF

/-- Characters that a document may hold. -/
def isAllowed (c : Char) : Bool :=
  let n := c.toNat
  n = 0x09 || n = 0x0A || n = 0x0D || (0x20 ≤ n && n ≤ 0x7E) || n = 0x85
    || (0xA0 ≤ n && n ≤ 0xD7FF) || (0xE000 ≤ n && n ≤ 0xFFFD) || 0x10000 ≤ n

/-! ### Cells -/

/-- A character and its place, counted from zero. -/
structure Cell where
  char : Char
  line : Nat
  column : Nat
  index : Nat
  deriving DecidableEq, Repr

namespace Cell

/-- The character of the last cell. No other cell has it. -/
def finish : Char := Char.ofNat 0

/-- Whether a cell marks the end. -/
def isEnd (c : Cell) : Bool := c.char == finish

/-- Whether a cell ends a word: a blank, a line break or the end. -/
def endsWord (c : Cell) : Bool := isBlank c.char || isBreak c.char || c.isEnd

/-- Whether a cell ends a line: a line break or the end. -/
def endsLine (c : Cell) : Bool := isBreak c.char || c.isEnd

end Cell

/-- Line breaks in one spelling: a carriage return, a line feed, both together and the next-line
character are one plain line break. -/
def plainBreaks : List Char → List Char
  | '\r' :: '\n' :: rest => '\n' :: plainBreaks rest
  | c :: rest => (if c = '\r' || c.toNat = 0x85 then '\n' else c) :: plainBreaks rest
  | [] => []

/-- Characters with their places, from a given place on, and the end. -/
def placed (line column index : Nat) : List Char → List Cell
  | [] => [⟨Cell.finish, line, column, index⟩]
  | c :: rest =>
    ⟨c, line, column, index⟩ ::
      if isBreak c then placed (line + 1) 0 (index + 1) rest
      else placed line (column + 1) (index + 1) rest

/-- The characters of a document in UTF-8, or in UTF-16 if it starts with a mark of byte order that
says so. The mark is dropped. -/
def chars? : Text → Option (List Char)
  | 0xFF :: 0xFE :: rest => Text.utf16? .littleEnd rest
  | 0xFE :: 0xFF :: rest => Text.utf16? .bigEnd rest
  | 0xEF :: 0xBB :: 0xBF :: rest => Text.utf8? rest
  | t => Text.utf8? t

/-- The cells of a document, unless its bytes are no characters or it holds one that it may not.
Another mark of byte order at the start takes a column, but is no cell. -/
def cells? (t : Text) : Option (List Cell) :=
  (chars? t).bind fun cs =>
    if !cs.all isAllowed then none
    else
      match plainBreaks cs with
      | c :: rest => some (if c = byteOrderMark then placed 0 1 1 rest else placed 0 0 0 (c :: rest))
      | [] => some (placed 0 0 0 [])

/-! ### Lines -/

/-- The cells after the blanks at their start. -/
def afterBlanks (cells : List Cell) : List Cell := cells.dropWhile fun c => isBlank c.char

/-- The cells from the end of their first line on. -/
def atLineEnd (cells : List Cell) : List Cell := cells.dropWhile (!Cell.endsLine ·)

/-- The cells after a line of which only blanks or a comment are left, and after its line break. -/
def lineEnd? (cells : List Cell) : Option (List Cell) :=
  let rest :=
    match afterBlanks cells with
    | c :: rest => if c.char = '#' then atLineEnd rest else c :: rest
    | [] => []
  match rest with
  | c :: more => if c.isEnd then some rest else if isBreak c.char then some more else none
  | [] => some []

/-- Whether words end before the second of the given cells. -/
def wordEndsAfter : List Cell → Bool
  | _ :: c :: _ => c.endsWord
  | _ => true

/-- Whether a line starts with the mark of a document: three of the given characters and the end of
a word. -/
def isMark (mark : Char) : List Cell → Bool
  | a :: b :: c :: d :: _ =>
    a.column = 0 && a.char = mark && b.char = mark && c.char = mark && d.endsWord
  | _ => false

/-- Whether a line starts with the mark of the start or of the end of a document. -/
def isDocumentMark (cells : List Cell) : Bool := isMark '-' cells || isMark '.' cells

end Slang.Yaml
