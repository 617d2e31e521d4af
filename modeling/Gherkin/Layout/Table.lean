import Gherkin.Line.Cells

/-!
# Table layout

The cells of a column are padded to one width. How wide a text is, is for the
caller to say; the layout only compares and adds.
-/

namespace Gherkin

namespace Layout

/-- The widths of the columns so far, with those of one more row: each column is
as wide as its widest cell. -/
def widen : (widths row : List Nat) → List Nat
  | [], row => row
  | widths, [] => widths
  | a :: widths, b :: row => max a b :: widen widths row

/-- The width of each column of rows of escaped cells. -/
def columnWidths (width : Text → Nat) (rows : List (List Text)) : List Nat :=
  rows.foldl (fun widths row => widen widths (row.map width)) []

/-- A cell with the blanks that fill its column. -/
def pad (width : Text → Nat) (cell : Text) (column : Nat) : Text :=
  cell ++ List.replicate (column - width cell) ' '

/-- The line of a row of escaped cells. -/
def rowLine (width : Text → Nat) (columns : List Nat) (cells : List Text) : Text :=
  if cells.isEmpty then ['|']
  else
    Text.word "| " ++
      Text.join (Text.word " | ") (List.zipWith (pad width) cells columns) ++ Text.word " |"

/-- The lines of a table with the given cell values. -/
def tableLines (width : Text → Nat) (rows : List (List Text)) : List Text :=
  let escaped := rows.map fun row => row.map Cell.escape
  escaped.map (rowLine width (columnWidths width escaped))

end Layout

end Gherkin
