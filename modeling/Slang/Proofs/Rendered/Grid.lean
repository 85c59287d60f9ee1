import Mathlib.Data.List.Forall2
import Slang.Proofs.Paths
import Slang.Report.Grid

/-!
# Listings as a grid

A grid has a title line and a block of lines for each row, between rules, and says at the end how many rows
there are (`Grid`). Each line has one field for each column, as wide as the column is, with blanks on one
side of what it shows. A block shows all lines of the cells of its row, side by side: a tab is four blanks
and a carriage return is left out (`CellLines`).

Nothing here looks at how a grid is drawn, or at how wide its columns are made; that the grid of rows is one
is `grid_grid`.
-/

namespace Slang.Report

/-- **What a row shows in a column**, by the title of the column. -/
inductive Row.Shows (r : Row) : (title : Text) → Text → Prop where
  | scope : r.Shows "SCOPE" (r.scope ++ "#" ++ Text.ofInt r.scopeId)
  | name : r.Shows "NAME" r.name
  | augmented : r.Shows "AUGMENTED" r.augmented
  | type : r.Shows "TYPE" r.type
  | line : r.Shows "LINE" (Text.ofInt r.line)
  | value : r.Shows "VALUE" r.value
  | signature : r.Shows "SIGNATURE" r.signature
  | descriptor : r.Shows "DESCRIPTOR" r.descriptor
  | inferred (h : r.inferred = true) : r.Shows "INFERRED" "true"
  | written (h : r.inferred = false) : r.Shows "INFERRED" "false"

/-- The titles of the columns, from left to right. -/
def titles : List Text :=
  ["SCOPE", "NAME", "AUGMENTED", "TYPE", "LINE", "VALUE", "SIGNATURE", "DESCRIPTOR", "INFERRED"]

/-- Numbers of lines stand to the right of their column, and everything else to the left. -/
def side (title : Text) : Side := if title = "LINE" then .right else .left

/-- **The lines of a cell.** -/
inductive CellLines : Text → List Text → Prop where
  | nil : CellLines [] [[]]
  | feed {t : Text} {lines : List Text} (rest : CellLines t lines) :
      CellLines (Text.lineFeed :: t) ([] :: lines)
  | tab {t line : Text} {lines : List Text} (rest : CellLines t (line :: lines)) :
      CellLines (9 :: t) (("    " ++ line) :: lines)
  | carriageReturn {t : Text} {lines : List Text} (rest : CellLines t lines) : CellLines (13 :: t) lines
  | shown {b : UInt8} {t line : Text} {lines : List Text} (hb : b ≠ Text.lineFeed ∧ b ≠ 9 ∧ b ≠ 13)
      (rest : CellLines t (line :: lines)) : CellLines (b :: t) ((b :: line) :: lines)

/-- A cell of a grid: its side, how wide its column is, and its lines. -/
structure Cell where
  side : Side
  width : Nat
  lines : List Text

/-- What a line of the grid shows of a cell: one of its lines, or nothing below the last one. -/
def Cell.line (c : Cell) (i : Nat) : Text := c.lines[i]?.getD []

/-- A text that is filled up with blanks to the width of a column. -/
inductive Fills : Side → (width : Nat) → Text → Text → Prop where
  | left {width n : Nat} {t : Text} (h : t.width + n = width) :
      Fills .left width t (t ++ List.replicate n 32)
  | right {width n : Nat} {t : Text} (h : t.width + n = width) :
      Fills .right width t (List.replicate n 32 ++ t)

/-- **One line of cells**, each between bars and with a blank on both sides. -/
inductive Line (i : Nat) : List Cell → Text → Prop where
  | last {c : Cell} {field : Text} (h : Fills c.side c.width (c.line i) field) :
      Line i [c] ("│ " ++ field ++ " │\n")
  | cons {c : Cell} {cs : List Cell} {field more : Text} (h : Fills c.side c.width (c.line i) field)
      (rest : Line i cs more) : Line i (c :: cs) ("│ " ++ field ++ " " ++ more)

/-- **The lines of a row of cells**: enough of them for all lines of each cell, and no more. -/
structure IsBlock (cells : List Cell) (lines : List Text) : Prop where
  enough : ∀ c ∈ cells, c.lines.length ≤ lines.length
  needed : ∃ c ∈ cells, c.lines.length = lines.length
  line : ∀ i (hi : i < lines.length), Line i cells lines[i]

/-- The cells of the title line. -/
def titleCells (widths : List Nat) : List Cell :=
  (titles.zip widths).map fun (title, width) => ⟨side title, width, [title]⟩

/-- The cells of a row, one to a column. -/
def Row.HasCells (r : Row) (widths : List Nat) (cells : List Cell) : Prop :=
  List.Forall₂ (fun (column : Text × Nat) c => c.side = side column.1 ∧ c.width = column.2 ∧
    ∃ content, r.Shows column.1 content ∧ CellLines content c.lines) (titles.zip widths) cells

/-- The blocks of rows, one after the other. -/
inductive Blocks (widths : List Nat) : List Row → Text → Prop where
  | nil : Blocks widths [] []
  | cons {r : Row} {rs : List Row} {cells : List Cell} {lines : List Text} {more : Text}
      (hcells : r.HasCells widths cells) (block : IsBlock cells lines) (rest : Blocks widths rs more) :
      Blocks widths (r :: rs) (lines.flatten ++ more)

/-- A line along the columns, with marks at the ends and where columns meet. -/
def ruleLine (left mid right : Text) (widths : List Nat) : Text :=
  left ++ Text.joinWith mid (widths.map fun width => (List.replicate (width + 2) ("─" : Text)).flatten) ++
    right ++ "\n"

/-- **A grid of rows**: titles, a block for each row in order, and how many rows there are. A column is as
wide as its title and all lines of its cells, and no wider. -/
inductive Grid : List Row → Text → Prop where
  | nil : Grid [] "(0 symbols)\n"
  | rows {rs : List Row} {widths : List Nat} {head body : Text} (hne : rs ≠ [])
      (hwidths : widths.length = titles.length)
      (needed : ∀ i (hi : i < titles.length) (hi' : i < widths.length), titles[i].width = widths[i] ∨
        ∃ r ∈ rs, ∃ content lines, r.Shows titles[i] content ∧ CellLines content lines ∧
          ∃ l ∈ lines, l.width = widths[i])
      (hhead : Line 0 (titleCells widths) head) (hbody : Blocks widths rs body) :
      Grid rs (ruleLine "┌" "┬" "┐" widths ++ head ++ ruleLine "├" "┼" "┤" widths ++ body ++
        ruleLine "└" "┴" "┘" widths ++ "(" ++ Text.ofNat rs.length ++ (" symbols)\n" : Text))

/-! ### The greatest of some numbers -/

/-- The greatest of some numbers is at most `n`. -/
theorem foldl_max_le_iff {l : List Nat} {a n : Nat} : l.foldl max a ≤ n ↔ a ≤ n ∧ ∀ m ∈ l, m ≤ n := by
  induction l generalizing a with
  | nil => simp
  | cons m l ih =>
    rw [List.foldl_cons, ih, Nat.max_le, List.forall_mem_cons, and_assoc]

/-- No number is greater than the greatest one. -/
theorem le_foldl_max {l : List Nat} {m : Nat} (h : m ∈ l) : m ≤ l.foldl max 0 :=
  (foldl_max_le_iff.mp (Nat.le_refl _)).2 m h

/-- The greatest of some numbers is one of them. -/
theorem foldl_max_mem {l : List Nat} (h : l ≠ []) : l.foldl max 0 ∈ l := by
  -- on the list, with any number to begin with
  have hmem : ∀ (l : List Nat) a, l.foldl max a ∈ a :: l := by
    intro l
    induction l with
    | nil => exact fun a => List.mem_singleton_self a
    | cons m l ih =>
      intro a
      rw [List.foldl_cons]
      rcases List.mem_cons.mp (ih (max a m)) with heq | hmem
      · rw [heq]
        rcases Nat.le_total a m with hle | hle
        · rw [Nat.max_eq_right hle]
          exact List.mem_cons_of_mem a List.mem_cons_self
        · rw [Nat.max_eq_left hle]
          exact List.mem_cons_self
      · exact List.mem_cons_of_mem a (List.mem_cons_of_mem m hmem)
  cases l with
  | nil => exact absurd rfl h
  | cons m l =>
    rw [List.foldl_cons, Nat.zero_max]
    exact hmem l m

/-! ### Cells -/

/-- **Cutting a cell gives its lines.** -/
theorem cellLines_cellLines (cell : Text) : CellLines cell (cellLines cell) := by
  -- on the bytes from the end: each joins the first line, is spread or left out, or begins a line
  induction cell with
  | nil => exact .nil
  | cons b cell ih =>
    unfold cellLines at ih ⊢
    rw [List.flatMap_cons]
    generalize cell.flatMap _ = rest at ih ⊢
    obtain ⟨line, lines, hlines⟩ := List.exists_cons_of_ne_nil (Text.split_ne_nil Text.lineFeed rest)
    rw [hlines] at ih
    have hstart {a : Text} (ha : Text.lineFeed ∉ a) :
        Text.split Text.lineFeed (a ++ rest) = (a ++ line) :: lines := by
      rw [Text.split_append_of_notMem ha hlines]
    by_cases htab : b = 9
    · subst htab
      rw [if_pos rfl, hstart (by decide)]
      exact .tab ih
    · rw [if_neg htab]
      by_cases hreturn : b = 13
      · subst hreturn
        rw [if_pos rfl, List.nil_append, hlines]
        exact .carriageReturn ih
      · rw [if_neg hreturn]
        by_cases hfeed : b = Text.lineFeed
        · subst hfeed
          have hsplit : Text.split Text.lineFeed ([Text.lineFeed] ++ rest) = [] :: line :: lines := by
            rw [← hlines]
            exact Text.split_append_cons List.not_mem_nil rest
          rw [hsplit]
          exact .feed ih
        · rw [hstart fun h => hfeed (List.mem_singleton.mp h).symm]
          exact .shown ⟨hfeed, htab, hreturn⟩ ih

/-- A text is filled up to a width that it does not exceed. -/
theorem fills_pad {side : Side} {width : Nat} {t : Text} (h : t.width ≤ width) :
    Fills side width t (pad side width t) := by
  cases side with
  | left => exact .left (Nat.add_sub_of_le h)
  | right => exact .right (Nat.add_sub_of_le h)

/-! ### Lines -/

/-- The cells of a row as they are drawn: the side and the width of their columns, and their lines. -/
def drawn (cs : List Column) (widths : List Nat) (row : List (List Text)) : List Cell :=
  (cs.zip (widths.zip row)).map fun (c, width, lines) => ⟨c.side, width, lines⟩

/-- Cells between bars make a line, if none of them is too narrow for what it shows. -/
theorem line_joinWith {i : Nat} {cs : List Cell} (hne : cs ≠ [])
    (h : ∀ c ∈ cs, (c.line i).width ≤ c.width) :
    Line i cs ("│" ++ Text.joinWith "│" (cs.map fun c => " " ++ pad c.side c.width (c.line i) ++ " ") ++
      ("│\n" : Text)) := by
  -- between two cells stands one bar; the blanks belong to the cells
  have hbar : ("│ " : Text) = "│" ++ " " := by decide
  have hend : (" │\n" : Text) = " " ++ "│\n" := by decide
  induction cs with
  | nil => exact absurd rfl hne
  | cons c cs ih =>
    obtain ⟨hc, hcs⟩ := List.forall_mem_cons.mp h
    cases cs with
    | nil =>
      have hlast := Line.last (fills_pad hc)
      rw [hbar, hend] at hlast
      simp only [List.map_cons, List.map_nil, Text.joinWith, List.append_assoc] at hlast ⊢
      exact hlast
    | cons d cs =>
      have hcons := Line.cons (fills_pad hc) (ih (List.cons_ne_nil d cs) hcs)
      rw [hbar] at hcons
      simp only [List.map_cons, Text.joinWith, List.append_assoc] at hcons ⊢
      exact hcons

/-- A line of a row of cells, cell by cell. -/
theorem cellLine_eq (widths : List Nat) (row : List (List Text)) (i : Nat) :
    cellLine widths (row.map fun cell => cell[i]?.getD []) =
      "│" ++ Text.joinWith "│" ((drawn columns widths row).map fun c =>
        " " ++ pad c.side c.width (c.line i) ++ " ") ++ ("│\n" : Text) := by
  unfold cellLine drawn
  rw [List.map_map, List.zip_map_right, List.zip_map_right, List.map_map]
  rfl

/-- What is drawn of a row, by columns. -/
theorem mem_drawn {cs : List Column} {widths : List Nat} {row : List (List Text)} {c : Cell}
    (h : c ∈ drawn cs widths row) : ∃ i, ∃ hi : i < cs.length, ∃ hw : i < widths.length,
      ∃ hr : i < row.length, c = ⟨cs[i].side, widths[i], row[i]⟩ := by
  unfold drawn at h
  obtain ⟨i, hi, rfl⟩ := List.mem_iff_getElem.mp h
  simp only [List.length_map, List.length_zip, Nat.lt_min] at hi
  refine ⟨i, hi.1, hi.2.1, hi.2.2, ?_⟩
  rw [List.getElem_map, List.getElem_zip, List.getElem_zip]

/-- The cell at each place of a row is drawn. -/
theorem drawn_mem {cs : List Column} {widths : List Nat} {row : List (List Text)} {i : Nat}
    (hi : i < cs.length) (hw : i < widths.length) (hr : i < row.length) :
    ⟨cs[i].side, widths[i], row[i]⟩ ∈ drawn cs widths row := by
  refine List.mem_map.mpr ⟨(cs[i], widths[i], row[i]), ?_, rfl⟩
  have hzip : i < (cs.zip (widths.zip row)).length := by
    simp only [List.length_zip]
    omega
  have hget : (cs.zip (widths.zip row))[i] = (cs[i], widths[i], row[i]) := by
    rw [List.getElem_zip, List.getElem_zip]
  exact hget ▸ List.getElem_mem hzip

/-- A row has cells. -/
theorem drawn_ne_nil {widths : List Nat} {row : List (List Text)} (hwidths : widths.length = columns.length)
    (hrow : row.length = columns.length) : drawn columns widths row ≠ [] := by
  have hpos : 0 < columns.length := by decide
  exact List.ne_nil_of_mem (drawn_mem hpos (hwidths ▸ hpos) (hrow ▸ hpos))

/-- A column that is wide enough for the lines of a cell is wide enough for what is shown below them. -/
theorem width_line_le {c : Cell} (h : ∀ l ∈ c.lines, l.width ≤ c.width) (i : Nat) :
    (c.line i).width ≤ c.width := by
  unfold Cell.line
  cases hline : c.lines[i]? with
  | none =>
    have hempty : Text.width [] = 0 := by
      unfold Text.width
      rw [Text.runes]
      rfl
    rw [Option.getD_none, hempty]
    exact Nat.zero_le _
  | some l => exact h l (List.mem_of_getElem? hline)

/-- **The lines of a row are a block of lines**, if its columns are wide enough for them. -/
theorem isBlock_rowLines {widths : List Nat} {row : List (List Text)}
    (hwidths : widths.length = columns.length) (hrow : row.length = columns.length)
    (h : ∀ c ∈ drawn columns widths row, ∀ l ∈ c.lines, l.width ≤ c.width) :
    ∃ lines, IsBlock (drawn columns widths row) lines ∧ rowLines widths row = lines.flatten := by
  refine ⟨(List.range ((row.map List.length).foldl max 0)).map fun i =>
    cellLine widths (row.map fun cell => cell[i]?.getD []), ⟨?_, ?_, ?_⟩, List.flatMap_def⟩
  · intro c hc
    obtain ⟨i, hi, hw, hr, rfl⟩ := mem_drawn hc
    rw [List.length_map, List.length_range]
    exact le_foldl_max (List.mem_map_of_mem (List.getElem_mem hr))
  · -- the greatest number of lines is the number of lines of one of the cells
    have hmax : (row.map List.length).foldl max 0 ∈ row.map List.length := by
      refine foldl_max_mem fun hnil => ?_
      rw [List.map_eq_nil_iff.mp hnil] at hrow
      exact absurd hrow (by decide)
    obtain ⟨cell, hcell, hlength⟩ := List.mem_map.mp hmax
    obtain ⟨i, hi, rfl⟩ := List.mem_iff_getElem.mp hcell
    -- that cell reaches the last line
    refine ⟨_, drawn_mem (hrow ▸ hi) (hwidths ▸ hrow ▸ hi) hi, ?_⟩
    rw [List.length_map, List.length_range]
    exact hlength
  · intro i hi
    rw [List.getElem_map, List.getElem_range, cellLine_eq]
    exact line_joinWith (drawn_ne_nil hwidths hrow) fun c hc => width_line_le (h c hc) i

/-! ### Columns -/

/-- The cells of a row show what the row shows, in the order of the columns. -/
theorem shows_cells (r : Row) : List.Forall₂ r.Shows titles r.cells := by
  have hinferred : r.Shows "INFERRED" (Scalar.writtenBool r.inferred) := by
    cases h : r.inferred with
    | true => exact .inferred h
    | false => exact .written h
  exact .cons .scope (.cons .name (.cons .augmented (.cons .type (.cons .line (.cons .value
    (.cons .signature (.cons .descriptor (.cons hinferred .nil))))))))

/-- The columns are drawn with their titles. -/
theorem columns_title : columns.map Column.title = titles := by decide

/-- Each column is drawn on the side of its title. -/
theorem columns_side : ∀ c ∈ columns, c.side = side c.title := by
  unfold columns
  simp only [List.forall_mem_cons]
  decide

/-- **The cells of a row, column by column.** -/
theorem hasCells_drawn (r : Row) {widths : List Nat} (hwidths : widths.length = columns.length) :
    r.HasCells widths (drawn columns widths (r.cells.map cellLines)) := by
  -- on the columns, with their contents and their widths in step
  have hzip : ∀ (cs : List Column) (contents : List Text) (widths : List Nat),
      (∀ c ∈ cs, c.side = side c.title) → List.Forall₂ r.Shows (cs.map Column.title) contents →
      widths.length = cs.length →
      List.Forall₂ (fun (column : Text × Nat) c => c.side = side column.1 ∧ c.width = column.2 ∧
        ∃ content, r.Shows column.1 content ∧ CellLines content c.lines)
        ((cs.map Column.title).zip widths) (drawn cs widths (contents.map cellLines)) := by
    intro cs
    induction cs with
    | nil => exact fun _ _ _ _ _ => .nil
    | cons c cs ih =>
      intro contents widths hside hshows hlength
      obtain ⟨hc, hcs⟩ := List.forall_mem_cons.mp hside
      cases hshows with
      | @cons _ content _ contents hcontent hcontents =>
        cases widths with
        | nil => cases hlength
        | cons width widths =>
          exact .cons ⟨hc, rfl, content, hcontent, cellLines_cellLines content⟩
            (ih contents widths hcs hcontents (Nat.succ.inj hlength))
  unfold Row.HasCells
  rw [← columns_title]
  exact hzip columns r.cells widths columns_side (columns_title ▸ shows_cells r) hwidths

/-- The titles are drawn like a row of their own. -/
theorem titleCells_eq (widths : List Nat) :
    titleCells widths = drawn columns widths (columns.map fun c => [c.title]) := by
  -- on the columns, with their widths in step
  have hzip : ∀ (cs : List Column) (widths : List Nat), (∀ c ∈ cs, c.side = side c.title) →
      (((cs.map Column.title).zip widths).map fun (title, width) => (⟨side title, width, [title]⟩ : Cell)) =
        drawn cs widths (cs.map fun c => [c.title]) := by
    intro cs
    induction cs with
    | nil => exact fun _ _ => rfl
    | cons c cs ih =>
      intro widths hside
      obtain ⟨hc, hcs⟩ := List.forall_mem_cons.mp hside
      cases widths with
      | nil => rfl
      | cons width widths =>
        have hcons : drawn (c :: cs) (width :: widths) ((c :: cs).map fun c => [c.title]) =
            ⟨c.side, width, [c.title]⟩ :: drawn cs widths (cs.map fun c => [c.title]) := rfl
        rw [hcons, ← ih widths hcs, hc]
        rfl
  unfold titleCells
  rw [← columns_title]
  exact hzip columns widths columns_side

/-! ### Widths -/

/-- Each column has a width. -/
theorem length_columnWidths (rows : List (List (List Text))) :
    (columnWidths rows).length = columns.length := by
  unfold columnWidths
  rw [List.length_map, List.length_range]

/-- The width of a column is that of its widest cell. -/
theorem getElem_columnWidths (rows : List (List (List Text))) {i : Nat} (hi : i < (columnWidths rows).length) :
    (columnWidths rows)[i] = (rows.map fun cells => cellWidth (cells[i]?.getD [])).foldl max 0 := by
  simp only [columnWidths, List.getElem_map, List.getElem_range]

/-- Every line fits into its column. -/
theorem width_le_columnWidths {rows : List (List (List Text))} {row : List (List Text)} (hrow : row ∈ rows)
    {c : Cell} (hc : c ∈ drawn columns (columnWidths rows) row) {l : Text} (hl : l ∈ c.lines) :
    l.width ≤ c.width := by
  obtain ⟨i, hi, hw, hr, rfl⟩ := mem_drawn hc
  have hcell : cellWidth row[i] ≤ (columnWidths rows)[i] := by
    rw [getElem_columnWidths]
    refine le_foldl_max (List.mem_map.mpr ⟨row, hrow, ?_⟩)
    rw [List.getElem?_eq_getElem hr, Option.getD_some]
  exact Nat.le_trans (le_foldl_max (List.mem_map_of_mem hl)) hcell

/-- The width of a cell is that of one of its lines. -/
theorem exists_cellWidth {lines : List Text} (h : lines ≠ []) : ∃ l ∈ lines, l.width = cellWidth lines := by
  have hmem : cellWidth lines ∈ lines.map Text.width :=
    foldl_max_mem fun hnil => h (List.map_eq_nil_iff.mp hnil)
  exact List.mem_map.mp hmem

/-- The widths of the columns of a grid, its titles included. -/
def gridWidths (rs : List Row) : List Nat :=
  columnWidths ((columns.map fun c => [c.title]) :: rs.map fun r => r.cells.map cellLines)

/-- Every line of the titles and of the rows fits into its column. -/
theorem width_le_gridWidths {rs : List Row} {row : List (List Text)}
    (hrow : row ∈ (columns.map fun c => [c.title]) :: rs.map fun r => r.cells.map cellLines) :
    ∀ c ∈ drawn columns (gridWidths rs) row, ∀ l ∈ c.lines, l.width ≤ c.width := by
  intro c hc l hl
  unfold gridWidths at hc
  exact width_le_columnWidths hrow hc hl

/-- **No column is wider than its title and its widest line.** -/
theorem gridWidths_needed (rs : List Row) {i : Nat} (hi : i < titles.length)
    (hi' : i < (gridWidths rs).length) : titles[i].width = (gridWidths rs)[i] ∨
      ∃ r ∈ rs, ∃ content lines, r.Shows titles[i] content ∧ CellLines content lines ∧
        ∃ l ∈ lines, l.width = (gridWidths rs)[i] := by
  have hwidth : (gridWidths rs)[i] = _ := getElem_columnWidths _ hi'
  rw [hwidth]
  have hmem := foldl_max_mem (l := ((columns.map fun c => [c.title]) ::
    rs.map fun r => r.cells.map cellLines).map fun cells => cellWidth (cells[i]?.getD []))
    (List.cons_ne_nil _ _)
  -- the greatest width is that of the title, or that of a cell of one of the rows
  rw [List.map_cons, List.mem_cons] at hmem
  rcases hmem with htitle | hrow
  · left
    rw [List.map_cons, htitle]
    have hcells : (columns.map fun c => [c.title])[i]?.getD [] = [titles[i]] := by
      have htitles : (columns.map fun c => [c.title]) = titles.map fun t => [t] := by decide
      rw [htitles, List.getElem?_map, List.getElem?_eq_getElem hi]
      rfl
    rw [hcells]
    exact (Nat.zero_max _).symm
  · right
    rw [List.map_map] at hrow
    obtain ⟨r, hr, hwidth⟩ := List.mem_map.mp hrow
    obtain ⟨hlength, hshows⟩ := List.forall₂_iff_get.mp (shows_cells r)
    have hi'' : i < r.cells.length := hlength ▸ hi
    have hcells : (r.cells.map cellLines)[i]?.getD [] = cellLines r.cells[i] := by
      rw [List.getElem?_map, List.getElem?_eq_getElem hi'']
      rfl
    obtain ⟨l, hl, hlwidth⟩ := @exists_cellWidth (cellLines r.cells[i]) (Text.split_ne_nil _ _)
    refine ⟨r, hr, r.cells[i], cellLines r.cells[i], hshows i hi hi'', cellLines_cellLines _, l, hl, ?_⟩
    rw [List.map_cons, List.map_map, ← hwidth, hlwidth, ← hcells]
    rfl

/-! ### Grids -/

/-- The blocks of rows. -/
theorem blocks_rowLines {widths : List Nat} (hwidths : widths.length = columns.length) {rs : List Row}
    (h : ∀ r ∈ rs, ∀ c ∈ drawn columns widths (r.cells.map cellLines), ∀ l ∈ c.lines, l.width ≤ c.width) :
    Blocks widths rs ((rs.map fun r => r.cells.map cellLines).flatMap (rowLines widths)) := by
  induction rs with
  | nil => exact .nil
  | cons r rs ih =>
    obtain ⟨hr, hrs⟩ := List.forall_mem_cons.mp h
    obtain ⟨lines, hblock, hlines⟩ := isBlock_rowLines hwidths (by rw [List.length_map]; rfl) hr
    rw [List.map_cons, List.flatMap_cons, hlines]
    exact .cons (hasCells_drawn r hwidths) hblock (ih hrs)

/-- The title line. -/
theorem line_titles {widths : List Nat} (hwidths : widths.length = columns.length)
    (h : ∀ c ∈ drawn columns widths (columns.map fun c => [c.title]), ∀ l ∈ c.lines, l.width ≤ c.width) :
    Line 0 (titleCells widths) (rowLines widths (columns.map fun c => [c.title])) := by
  have hheight : ((columns.map fun c => [c.title]).map List.length).foldl max 0 = 1 := by decide
  unfold rowLines
  dsimp only
  rw [hheight, List.range_one, List.flatMap_singleton, cellLine_eq, titleCells_eq]
  exact line_joinWith (drawn_ne_nil hwidths (List.length_map _)) fun c hc => width_line_le (h c hc) 0

/-- **The grid of rows shows them.** -/
theorem grid_grid (rs : List Row) : Grid rs (grid rs) := by
  cases rs with
  | nil =>
    -- without rows, there is a line that says so
    have hcount : grid [] = "(0 symbols)\n" := by
      unfold grid
      rw [List.length_nil, Text.ofNat]
      rfl
    rw [hcount]
    exact .nil
  | cons r rs =>
    have hlength : (gridWidths (r :: rs)).length = columns.length := length_columnWidths _
    -- the widths leave room for the titles and for every row
    have hhead := line_titles hlength (width_le_gridWidths List.mem_cons_self)
    have hbody : Blocks (gridWidths (r :: rs)) (r :: rs) _ := blocks_rowLines hlength fun r' hr' =>
      width_le_gridWidths (List.mem_cons_of_mem _ (List.mem_map.mpr ⟨r', hr', rfl⟩))
    have hgrid := Grid.rows (List.cons_ne_nil r rs) hlength
      (fun i hi hi' => gridWidths_needed (r :: rs) hi hi') hhead hbody
    simp only [List.append_assoc] at hgrid
    unfold grid
    rw [if_neg (by exact Bool.false_ne_true)]
    simp only [List.append_assoc]
    exact hgrid

end Slang.Report
