import Gherkin.Proofs.Line.Fields

/-!
# Reading a rendered row

A row is rendered with the blanks that fill its columns, whatever widths these
have. Splitting the line gives back the values of the row.
-/

namespace Gherkin

namespace Layout

variable {width : Text → Nat} {columns : List Nat}

theorem length_widen (widths row : List Nat) :
    (widen widths row).length = max widths.length row.length := by
  fun_induction widen widths row with
  | case1 row => simp
  | case2 widths => simp
  | case3 a widths b row ih => simp [ih]

/-- There are columns for all cells of each row. -/
theorem length_le_columnWidths {rows : List (List Text)} {row : List Text} (member : row ∈ rows) :
    row.length ≤ (columnWidths width rows).length := by
  have widened (rows : List (List Text)) (widths : List Nat) :
      widths.length ≤ (rows.foldl (fun widths row => widen widths (row.map width)) widths).length ∧
      ∀ row ∈ rows,
        row.length ≤ (rows.foldl (fun widths row => widen widths (row.map width)) widths).length := by
    induction rows generalizing widths with
    | nil => simp
    | cons first rest ih =>
        obtain ⟨kept, later⟩ := ih (widen widths (first.map width))
        rw [length_widen, List.length_map] at kept
        refine ⟨Nat.le_trans (Nat.le_max_left _ _) kept, List.forall_mem_cons.mpr ⟨?_, later⟩⟩
        exact Nat.le_trans (Nat.le_max_right _ _) kept
  exact (widened rows []).2 row member

theorem length_le_columnWidths_escape {rows : List (List Text)} {row : List Text}
    (member : row ∈ rows) :
    row.length ≤ (columnWidths width (rows.map fun row => row.map Cell.escape)).length := by
  rw [← List.length_map Cell.escape]
  exact length_le_columnWidths (List.mem_map_of_mem member)

/-- The part of a row line that belongs to a cell, with the pipe behind it. -/
def cellPart (width : Text → Nat) (cell : Text) (column : Nat) : Text :=
  ' ' :: (pad width cell column ++ [' ', '|'])

theorem rowLine_eq {cells : List Text} (enough : cells.length ≤ columns.length) :
    rowLine width columns cells = '|' :: (List.zipWith (cellPart width) cells columns).flatten := by
  unfold rowLine
  split
  · next empty =>
    rw [List.isEmpty_iff.mp empty]
    rfl
  · next some =>
    have joined (parts : List Text) (more : parts ≠ []) :
        Text.word "| " ++ Text.join (Text.word " | ") parts ++ Text.word " |" =
          '|' :: (parts.map fun part => ' ' :: (part ++ [' ', '|'])).flatten := by
      induction parts with
      | nil => exact absurd rfl more
      | cons part rest ih =>
          cases rest with
          | nil => simp [Text.join, List.intercalate, Text.word]
          | cons next rest =>
              have later := ih (List.cons_ne_nil _ _)
              rw [List.map_cons, List.flatten_cons]
              simp only [Text.join, List.intercalate, List.intersperse, Text.word,
                List.flatten_cons] at later ⊢
              simpa using later
    rw [joined]
    · rw [List.map_zipWith]
      rfl
    · cases cells with
      | nil => simp at some
      | cons cell cells =>
          cases columns with
          | nil => simp at enough
          | cons column columns => simp

/-- A value with the blanks that fill its column. -/
def padded (width : Text → Nat) (value : Text) (column : Nat) : Cell.Padded :=
  ⟨[' '], value, List.replicate (column - width (Cell.escape value)) ' ' ++ [' ']⟩

theorem cellPart_escape (value : Text) (column : Nat) :
    cellPart width (Cell.escape value) column = (padded width value column).text ++ ['|'] := by
  simp [cellPart, padded, Cell.Padded.text, pad]

theorem isBlank_spaces (count : Nat) : Text.IsBlank (List.replicate count ' ' ++ [' ']) := by
  intro c member
  have space : c = ' ' := by
    rcases List.mem_append.mp member with member | member
    · exact List.eq_of_mem_replicate member
    · exact List.mem_singleton.mp member
  rw [space]
  rfl

theorem isLegal_padded {value : Text} (stripped : IsCellValue value) (column : Nat) :
    (padded width value column).IsLegal :=
  ⟨isBlank_spaces 0, isBlank_spaces _, stripped⟩

/-- The values of a row, each with the blanks that fill its column. -/
def paddedCells (width : Text → Nat) (row : List Text) (columns : List Nat) : List Cell.Padded :=
  (row.zip columns).map fun part => padded width part.1 part.2

theorem rowLine_eq_row {row : List Text} (front : Text) (enough : row.length ≤ columns.length) :
    front ++ rowLine width columns (row.map Cell.escape) =
      Cell.Padded.row front (paddedCells width row columns) [] := by
  have parts : List.zipWith (cellPart width) (row.map Cell.escape) columns =
      (paddedCells width row columns).map fun cell => cell.text ++ ['|'] := by
    rw [paddedCells, List.map_map, List.zip_eq_zipWith, List.map_zipWith, List.zipWith_map_left]
    simp only [cellPart_escape]
    rfl
  rw [rowLine_eq (by simpa using enough), parts, Cell.Padded.row, List.append_nil]
  rfl

/-- Splitting the line of a row gives its values back. -/
theorem values_split_rowLine {front : Text} {row : List Text} (blank : Text.IsBlank front)
    (values : ∀ value ∈ row, IsCellValue value) (enough : row.length ≤ columns.length) :
    (Cell.split (front ++ rowLine width columns (row.map Cell.escape))).map Cell.value = row := by
  have legal : ∀ cell ∈ paddedCells width row columns, cell.IsLegal := by
    intro cell member
    obtain ⟨part, inside, rfl⟩ := List.mem_map.mp member
    exact isLegal_padded (values _ (List.of_mem_zip inside).1) part.2
  have kept : (paddedCells width row columns).map Cell.Padded.value = row := by
    rw [paddedCells, List.map_map]
    exact List.map_fst_zip enough
  rw [rowLine_eq_row front enough, Cell.values_split, Cell.Padded.readFields_row legal, kept]
  · exact Text.not_mem_of_isBlank blank rfl
  · exact Text.not_mem_of_isBlank blank rfl
  · exact List.not_mem_nil
  · exact List.not_mem_nil

theorem not_newline_mem_rowLine {cells : List Text} (oneLine : ∀ cell ∈ cells, '\n' ∉ cell)
    (enough : cells.length ≤ columns.length) : '\n' ∉ rowLine width columns cells := by
  rw [rowLine_eq enough]
  induction cells generalizing columns with
  | nil => simp
  | cons cell cells ih =>
      obtain ⟨here, later⟩ := List.forall_mem_cons.mp oneLine
      cases columns with
      | nil => simp at enough
      | cons column columns =>
          have rest := ih later (Nat.le_of_succ_le_succ enough)
          have other : '\n' ∉ (List.zipWith (cellPart width) cells columns).flatten :=
            fun member => rest (List.mem_cons_of_mem _ member)
          simp only [List.zipWith_cons_cons, List.flatten_cons, List.mem_cons, List.mem_append]
          simp [cellPart, pad, here]
          simpa using other

/-- A row line begins and ends with a pipe. -/
theorem exists_rowLine_eq (width : Text → Nat) (columns : List Nat) (cells : List Text) :
    ∃ rest, rowLine width columns cells = '|' :: rest ∧ Text.IsTrimmed ('|' :: rest) := by
  unfold rowLine
  split
  · exact ⟨[], rfl, by simp [Text.isBlank], by simp [Text.isBlank]⟩
  · let middle := Text.join (Text.word " | ") (List.zipWith (pad width) cells columns)
    have whole : Text.word "| " ++ middle ++ Text.word " |" =
        ('|' :: ' ' :: middle ++ [' ']) ++ ['|'] := by simp [Text.word]
    refine ⟨' ' :: middle ++ [' ', '|'], by rw [whole]; simp, by simp [Text.isBlank], ?_⟩
    intro c last
    have ends : ('|' :: (' ' :: middle ++ [' ', '|'])).getLast? = some '|' := by
      rw [show '|' :: (' ' :: middle ++ [' ', '|']) = ('|' :: ' ' :: middle ++ [' ']) ++ ['|'] by
        simp, List.getLast?_concat]
    rw [ends] at last
    cases last
    rfl

end Layout

end Gherkin
