import Gherkin.Text.Basic

/-!
# Lines of a text

A line ends at a newline, and a carriage return right before that newline
belongs to the line ending. The piece after the last newline is a line of its
own unless it is empty, and keeps a carriage return it ends with.
-/

namespace Gherkin

namespace Text

/-- The pieces between the newlines of a text: one more than there are newlines. -/
def pieces : Text → List Text
  | [] => [[]]
  | c :: t =>
    if c = '\n' then [] :: pieces t
    else match pieces t with
      | [] => [[c]]
      | first :: rest => (c :: first) :: rest

/-- A line without the carriage return of its line ending. -/
def chopReturn (line : Text) : Text :=
  if line.getLast? = some '\r' then line.dropLast else line

/-- The lines among the pieces of a text. -/
def linesOfPieces : List Text → List Text
  | [] => []
  | [last] => if last.isEmpty then [] else [last]
  | piece :: next :: rest => chopReturn piece :: linesOfPieces (next :: rest)

/-- The lines of a text, without their line endings. -/
def lines (t : Text) : List Text := linesOfPieces (pieces t)

/-- Lines put one below the other, with no newline after the last. -/
def unlines (ls : List Text) : Text := join ['\n'] ls

theorem pieces_ne_nil (t : Text) : pieces t ≠ [] := by
  cases t with
  | nil => simp [pieces]
  | cons c t =>
    simp only [pieces]
    split
    · simp
    · split <;> simp

theorem unlines_pieces (t : Text) : unlines (pieces t) = t := by
  induction t with
  | nil => rfl
  | cons c t ih =>
    simp only [pieces]
    have some_piece := pieces_ne_nil t
    generalize pieces t = ps at ih some_piece
    cases ps with
    | nil => exact absurd rfl some_piece
    | cons first rest =>
      by_cases newline : c = '\n'
      · simp only [newline, if_true]
        rw [← ih]
        simp [unlines, join, List.intercalate, List.intersperse]
      · simp only [newline, if_false]
        rw [← ih]
        cases rest <;> simp [unlines, join, List.intercalate, List.intersperse]

end Text

end Gherkin
