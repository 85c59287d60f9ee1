import Slang.Text.Basic
/-!
# Positions

A **position** is a place in a source text: a line and a column, both counted from one. A column
counts bytes. A line feed belongs to the line that it ends.
-/

namespace Slang

/-- A line and a column. Positions found by reading a text start at one; a position written by hand
may be any pair of integers. -/
structure Position where
  line : Int
  column : Int
  deriving DecidableEq, Repr, Inhabited

namespace Position

/-- Where the first byte of a text stands. -/
def start : Position := ⟨1, 1⟩

/-- The position after a byte. -/
def next (p : Position) (b : UInt8) : Position :=
  if b = Text.lineFeed then ⟨p.line + 1, 1⟩ else ⟨p.line, p.column + 1⟩

/-- The position after all bytes of a text. -/
def after (p : Position) (t : Text) : Position := t.foldl next p

/-- The place of the last byte before a position on its line, or column zero if there is none. -/
def back (p : Position) : Position := ⟨p.line, p.column - 1⟩

/-- Positions are ordered by line and then by column. -/
def le (p q : Position) : Bool := p.line < q.line || (p.line == q.line && p.column ≤ q.column)

@[simp] theorem after_nil (p : Position) : p.after [] = p := rfl

@[simp] theorem after_cons (p : Position) (b : UInt8) (t : Text) :
    p.after (b :: t) = (p.next b).after t := rfl

theorem after_append (p : Position) (s t : Text) : p.after (s ++ t) = (p.after s).after t :=
  List.foldl_append

end Position
end Slang
