import Slang.Report.Row
import Slang.Text.Width
/-!
# Symbol reports as a grid

Rows in a grid of light box lines. A column is as wide as its widest cell, the title row included.
Cells stand to the left, integers to the right. A cell of several lines makes its row as high as it
needs to be.
-/

namespace Slang.Report

/-- Whether the cells of a column stand to the left or to the right. -/
inductive Side where
  | left
  | right
  deriving DecidableEq, Repr

/-- A column: its title and the side of its cells. -/
structure Column where
  title : Text
  side : Side

/-- The columns of the report. -/
def columns : List Column :=
  [⟨"SCOPE", .left⟩, ⟨"NAME", .left⟩, ⟨"AUGMENTED", .left⟩, ⟨"TYPE", .left⟩, ⟨"LINE", .right⟩,
    ⟨"VALUE", .left⟩, ⟨"SIGNATURE", .left⟩, ⟨"DESCRIPTOR", .left⟩, ⟨"INFERRED", .left⟩]

/-- The cells of a row, in the order of the columns. -/
def Row.cells (r : Row) : List Text :=
  [r.scope ++ "#" ++ Text.ofInt r.scopeId, r.name, r.augmented, r.type, Text.ofInt r.line, r.value,
    r.signature, r.descriptor, Scalar.writtenBool r.inferred]

/-! ### Lines of a cell -/

/-- The lines of a cell. A tab is four blanks, and a carriage return is left out. -/
def cellLines (cell : Text) : List Text :=
  Text.split Text.lineFeed <| cell.flatMap fun b =>
    if b = 9 then "    " else if b = 13 then [] else [b]

/-- The width of a cell. -/
def cellWidth (lines : List Text) : Nat := (lines.map Text.width).foldl max 0

/-- A line of a cell, padded to a width. -/
def pad (side : Side) (width : Nat) (t : Text) : Text :=
  let blanks := Text.fill (width - t.width) 32
  match side with
  | .left => t ++ blanks
  | .right => blanks ++ t

/-! ### Lines of the grid -/

/-- A rule: `─` along each column, and other marks at the ends and between columns. -/
def rule (left mid right : Text) (widths : List Nat) : Text :=
  left ++ Text.joinWith mid (widths.map fun w => Text.times (w + 2) "─") ++ right ++ "\n"

/-- One line of cells. -/
def cellLine (widths : List Nat) (cells : List Text) : Text :=
  "│" ++ Text.joinWith "│" ((columns.zip (widths.zip cells)).map fun (c, w, t) =>
    " " ++ pad c.side w t ++ " ") ++ "│\n"

/-- All lines of a row of cells. -/
def rowLines (widths : List Nat) (cells : List (List Text)) : Text :=
  let height := (cells.map List.length).foldl max 0
  (List.range height).flatMap fun i => cellLine widths (cells.map fun cell => cell[i]?.getD [])

/-- The width of each column. -/
def columnWidths (rows : List (List (List Text))) : List Nat :=
  (List.range columns.length).map fun i =>
    (rows.map fun cells => cellWidth (cells[i]?.getD [])).foldl max 0

/-- Rows as a grid, and how many there are. Without rows there is no grid. -/
def grid (rows : List Row) : Text :=
  let count := "(" ++ Text.ofNat rows.length ++ " symbols)\n"
  if rows.isEmpty then count
  else
    let title := columns.map fun c => [c.title]
    let body := rows.map fun r => r.cells.map cellLines
    let widths := columnWidths (title :: body)
    rule "┌" "┬" "┐" widths ++ rowLines widths title ++ rule "├" "┼" "┤" widths
      ++ body.flatMap (rowLines widths) ++ rule "└" "┴" "┘" widths ++ count

end Slang.Report
