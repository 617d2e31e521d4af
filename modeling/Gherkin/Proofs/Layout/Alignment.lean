import Gherkin.Proofs.Document.Layout

/-!
# Aligned tables

The widths of the columns are collected row by row. What comes out for a column is the width of the
widest cell in it, over all rows that have the column, so that no cell is wider than its column
and one cell fills it. The rows need not have the same length: each is written on a line of its own
and comes apart into as many cells as it has.
-/

namespace Gherkin

namespace Layout

variable {width : Text → Nat} {rows : List (List Text)} {row : List Text} {column : Nat}

/-! ### Widths of columns -/

/-- The cells of a column, as they are written, in the rows that have this column. -/
def columnCells (rows : List (List Text)) (column : Nat) : List Text :=
  (rows.filterMap fun row => row[column]?).map Cell.escape

/-- The width of the widest cell of a column; none if no row has the column. -/
def columnWidth? (width : Text → Nat) (rows : List (List Text)) (column : Nat) : Option Nat :=
  ((columnCells rows column).map width).max?

theorem getElem?_widen (widths row : List Nat) (column : Nat) :
    (widen widths row)[column]? = Option.merge max widths[column]? row[column]? := by
  fun_induction widen widths row generalizing column with
  | case1 row => simp
  | case2 widths => simp
  | case3 a widths b row ih =>
    cases column with
    | zero => rfl
    | succ column => exact ih column

theorem merge_assoc (a b c : Option Nat) :
    Option.merge max (Option.merge max a b) c = Option.merge max a (Option.merge max b c) := by
  cases a <;> cases b <;> cases c <;> simp [Nat.max_assoc]

theorem max?_cons_eq (a : Nat) (rest : List Nat) :
    (a :: rest).max? = Option.merge max (some a) rest.max? := by
  rw [List.max?_cons]
  cases rest.max? <;> rfl

/-- The widths that are collected are those of the widest cells. -/
theorem getElem?_columnWidths (width : Text → Nat) (rows : List (List Text)) (column : Nat) :
    (columnWidths width (rows.map fun row => row.map Cell.escape))[column]? =
      columnWidth? width rows column := by
  -- The rows are followed from any widths that were collected before them.
  have collected (widths : List Nat) :
      ((rows.map fun row => row.map Cell.escape).foldl
        (fun widths row => widen widths (row.map width)) widths)[column]? =
          Option.merge max widths[column]? (columnWidth? width rows column) := by
    induction rows generalizing widths with
    | nil => simp [columnWidth?, columnCells]
    | cons first rest ih =>
      rw [List.map_cons, List.foldl_cons, ih, getElem?_widen, merge_assoc]
      congr 1
      rw [columnWidth?, columnWidth?, columnCells, columnCells, List.filterMap_cons,
        List.getElem?_map, List.getElem?_map]
      cases first[column]? with
      | none => exact Option.merge_none_left
      | some value =>
        rw [List.map_cons, List.map_cons, max?_cons_eq]
        rfl
  rw [columnWidths, collected]
  simp

theorem escape_mem_columnCells (member : row ∈ rows) {value : Text}
    (found : row[column]? = some value) : Cell.escape value ∈ columnCells rows column :=
  List.mem_map_of_mem (List.mem_filterMap.mpr ⟨row, member, found⟩)

/-- No cell is wider than its column. -/
theorem width_le_columnWidth? (member : row ∈ rows) {value : Text}
    (found : row[column]? = some value) {widest : Nat}
    (most : columnWidth? width rows column = some widest) :
    width (Cell.escape value) ≤ widest :=
  (List.max?_eq_some_iff.mp most).2 _ (List.mem_map_of_mem (escape_mem_columnCells member found))

/-- Every column has a cell that is as wide as the column. -/
theorem exists_widest (member : row ∈ rows) (inside : column < row.length) :
    ∃ other ∈ rows, ∃ value, other[column]? = some value ∧
      columnWidth? width rows column = some (width (Cell.escape value)) := by
  have cell := escape_mem_columnCells member (List.getElem?_eq_getElem inside)
  cases most : columnWidth? width rows column with
  | none =>
    have nothing := List.max?_eq_none_iff.mp most
    rw [List.map_eq_nil_iff] at nothing
    rw [nothing] at cell
    cases cell
  | some widest =>
    obtain ⟨cell, here, rfl⟩ := List.mem_map.mp (List.max?_mem most)
    obtain ⟨value, inside, rfl⟩ := List.mem_map.mp here
    obtain ⟨other, among, found⟩ := List.mem_filterMap.mp inside
    exact ⟨other, among, value, found, rfl⟩

/-! ### Lines of rows -/

/-- A value behind a blank, with some spaces and a blank behind it. -/
def filled (value : Text) (spaces : Nat) : Cell.Padded :=
  ⟨[' '], value, List.replicate spaces ' ' ++ [' ']⟩

/-- A line holds a row of a table. Behind each cell there are as many spaces as the cell is narrower
than the widest cell of its column. -/
structure IsAligned (width : Text → Nat) (rows : List (List Text)) (front : Text)
    (row : List Text) (line : Text) : Prop where
  written : ∃ spaces : List Nat, spaces.length = row.length ∧
    line = Cell.Padded.row front (List.zipWith filled row spaces) [] ∧
    ∀ column value count, row[column]? = some value → spaces[column]? = some count →
      columnWidth? width rows column = some (width (Cell.escape value) + count)
  oneLine : '\n' ∉ line
  cells : (Cell.split line).length = row.length

theorem paddedCells_eq (width : Text → Nat) (row : List Text) (columns : List Nat) :
    paddedCells width row columns = List.zipWith filled row
      (List.zipWith (fun value column => column - width (Cell.escape value)) row columns) := by
  induction row generalizing columns with
  | nil => rfl
  | cons value rest ih =>
    cases columns with
    | nil => rfl
    | cons column columns => exact congrArg _ (ih columns)

/-- In the table that a row is part of, the line of the row is aligned. -/
theorem isAligned_rowLine {front : Text} (blank : Text.IsBlank front) (newlineFree : '\n' ∉ front)
    (member : row ∈ rows) :
    IsAligned width rows front row (front ++ rowLine width
      (columnWidths width (rows.map fun row => row.map Cell.escape)) (row.map Cell.escape)) := by
  have widest (column : Nat) := getElem?_columnWidths width rows column
  have enough := @length_le_columnWidths_escape width rows row member
  generalize columnWidths width (rows.map fun row => row.map Cell.escape) = columns
    at widest enough
  have whole := @rowLine_eq_row width columns row front enough
  rw [paddedCells_eq] at whole
  have unparted : ∀ cell ∈ paddedCells width row columns, Cell.IsUnparted cell.text := by
    intro cell among
    obtain ⟨part, -, rfl⟩ := List.mem_map.mp among
    exact Cell.Padded.isUnparted_text (isBlank_spaces 0) (isBlank_spaces _)
  refine ⟨⟨_, ?_, whole, ?_⟩, ?_, ?_⟩
  · rw [List.length_zipWith, Nat.min_eq_left enough]
  · intro column value count found spaces
    rw [List.getElem?_zipWith, found] at spaces
    cases most : columns[column]? with
    | none =>
      rw [most] at spaces
      cases spaces
    | some width' =>
      rw [most] at spaces
      cases spaces
      rw [widest] at most
      rw [most, Nat.add_sub_of_le (width_le_columnWidth? member found most)]
  · intro newline
    exact (List.mem_append.mp newline).elim newlineFree (isLabel_rowLine enough).oneLine
  · rw [rowLine_eq_row front enough, Cell.length_split, Cell.Padded.fields_row unparted
      (Text.not_mem_of_isBlank blank rfl) (Text.not_mem_of_isBlank blank rfl) List.not_mem_nil
      List.not_mem_nil, List.tail_cons, List.dropLast_concat, List.length_map, paddedCells,
      List.length_map, List.length_zip, Nat.min_eq_left enough]

/-! ### Lines of tables -/

/-- The lines of a table where it stands. -/
def writtenLines (width : Text → Nat) (indent : Text) (depth : Nat) (rows : List (List Text)) :
    List Text :=
  (tableLines width rows).map (Text.repeated depth indent ++ ·)

/-- Lines that say something settle where they stand, whatever is around them. -/
theorem settle_map_line {indent : Text} {ls : List Text} (written : ∀ line ∈ ls, line ≠ [])
    (onText : Bool) (depth : Nat) (below : List Item) :
    settle indent onText (ls.map (Item.line depth) ++ below) =
      ls.map (Text.repeated depth indent ++ ·) ++
        settle indent (onText || !ls.isEmpty) below := by
  induction ls generalizing onText with
  | nil => simp
  | cons line rest ih =>
    obtain ⟨here, later⟩ := List.forall_mem_cons.mp written
    have some : line.isEmpty = false := by simp [here]
    rw [List.map_cons, List.cons_append, settle, some, if_neg Bool.false_ne_true, ih later]
    simp

theorem settle_table {indent : Text} (width : Text → Nat) (rows : List (List Text)) (depth : Nat)
    (onText : Bool) (below : List Item) :
    settle indent onText (table width depth rows ++ below) =
      writtenLines width indent depth rows ++ settle indent (onText || !rows.isEmpty) below := by
  have written : ∀ line ∈ tableLines width rows, line ≠ [] :=
    fun line member => (isLabel_of_mem_tableLines member).1
  have same : (tableLines width rows).isEmpty = rows.isEmpty := by
    rw [tableLines_eq, List.isEmpty_map]
  rw [table, settle_map_line written, same, writtenLines]

/-- The text of a table has the lines of the table. -/
theorem lines_renderAt_table {indent : Text} (width : Text → Nat) (depth : Nat)
    (newlineFree : '\n' ∉ indent) {α : Type} (label : α) (children : List (Branch α)) :
    Text.lines (renderAt width indent depth (.node label .table children)) =
      writtenLines width indent depth (cellRows children) := by
  have tidy : Tidy (items width depth (.node label .table children)) := tidy_table _
  have settles : settle indent false (items width depth (.node label .table children)) =
      writtenLines width indent depth (cellRows children) := by
    have whole := @settle_table indent width (cellRows children) depth false []
    rwa [List.append_nil, settle, List.append_nil] at whole
  have lines : settled indent false (items width depth (.node label .table children)) =
      writtenLines width indent depth (cellRows children) := by
    rw [settled, settles, List.rdropWhile_eq_self_iff]
    intro some
    obtain ⟨line, member, same⟩ := List.mem_map.mp (List.getLast_mem some)
    rw [← same]
    simp [(isLabel_of_mem_tableLines member).1]
  have oneLine := @not_newline_mem_settled indent false _ newlineFree tidy
  rw [renderAt_eq width newlineFree tidy, Text.lines_unlines oneLine (ends_settled tidy), lines]
  refine (List.map_congr_left fun line member => ?_).trans (List.map_id _)
  obtain ⟨text, inside, rfl⟩ := List.mem_map.mp member
  obtain ⟨written, label⟩ := isLabel_of_mem_tableLines inside
  rw [Text.chopReturn_append _ written,
    Text.chopReturn_of_trimEnd (Text.trimEnd_of_isTrimmed label.trimmed)]
  rfl

/-- Each row of a table is written on one line, whatever widths its cells have, with its cells
aligned to those of the other rows, and the line comes apart into as many cells as the row has.
Every column has a cell without spaces behind it. The lines settle in this form wherever the table
is, and the text of a table has no other lines. -/
theorem table_isAligned {indent : Text} (width : Text → Nat) (rows : List (List Text))
    (depth : Nat) (blank : Text.IsBlank indent) (newlineFree : '\n' ∉ indent) :
    List.Forall₂ (IsAligned width rows (Text.repeated depth indent)) rows
      (writtenLines width indent depth rows) ∧
    (∀ column, (∃ row ∈ rows, column < row.length) → ∃ row ∈ rows, ∃ value,
      row[column]? = some value ∧
        columnWidth? width rows column = some (width (Cell.escape value))) ∧
    (∀ onText below, settle indent onText (table width depth rows ++ below) =
      writtenLines width indent depth rows ++ settle indent (onText || !rows.isEmpty) below) ∧
    ∀ (α : Type) (label : α) (children : List (Branch α)), cellRows children = rows →
      Text.lines (renderAt width indent depth (.node label .table children)) =
        writtenLines width indent depth rows := by
  refine ⟨?_, ?_, settle_table width rows depth, ?_⟩
  · rw [writtenLines, tableLines_eq, List.map_map, List.forall₂_map_right_iff, List.forall₂_same]
    exact fun row member => isAligned_rowLine (Text.isBlank_repeated blank depth)
      (Text.not_mem_repeated newlineFree depth) member
  · rintro column ⟨row, member, inside⟩
    exact exists_widest member inside
  · rintro α label children rfl
    exact lines_renderAt_table width depth newlineFree label children

/-- Rows of different lengths, with a pipe and a newline in cells and a row without cells. -/
def sampleRows : List (List Text) :=
  [[Text.word "a", Text.word "bb|"], [Text.word "long"], [],
    [Text.word "x", Text.word "y\n", Text.word "z"]]

theorem table_isAligned_sampleRows :
    Text.IsBlank ['\t'] ∧ '\n' ∉ ['\t'] ∧
      List.Forall₂ (IsAligned List.length sampleRows ['\t']) sampleRows
        [Text.word "\t| a    | bb\\| |", Text.word "\t| long |", Text.word "\t|",
          Text.word "\t| x    | y\\n  | z |"] := by
  have blank : Text.IsBlank ['\t'] := by decide
  have newlineFree : '\n' ∉ ['\t'] := by decide
  have written : writtenLines List.length ['\t'] 1 sampleRows =
      [Text.word "\t| a    | bb\\| |", Text.word "\t| long |", Text.word "\t|",
        Text.word "\t| x    | y\\n  | z |"] := by decide
  refine ⟨blank, newlineFree, ?_⟩
  rw [← written]
  exact (table_isAligned List.length sampleRows 1 blank newlineFree).1

end Layout

end Gherkin
