import Gherkin.Text.Basic

/-!
# Table rows

The cells of a row stand between its pipes. In a cell a backslash escapes a
pipe, a backslash or the letter `n`, which then stands for a newline; any other
backslash stands for itself. Blanks at either end of a cell do not belong to its
value, unless they are escaped.
-/

namespace Gherkin

/-- One sign of a row: a separating pipe, a character as written, or the
character an escape stands for. -/
inductive Glyph where
  | pipe
  | plain (c : Char)
  | escaped (c : Char)
deriving DecidableEq, Repr

namespace Glyph

/-- The character a sign adds to the value of its cell. -/
def value : Glyph → Char
  | .pipe => '|'
  | .plain c => c
  | .escaped c => c

/-- Whether a sign is a blank as written. -/
def isBlank : Glyph → Bool
  | .plain c => Text.isBlank c
  | _ => false

/-- The signs of a text, each with its column, the first at a given column. -/
def read : (column : Nat) → Text → List (Nat × Glyph)
  | _, [] => []
  | column, '\\' :: '|' :: t => (column, .escaped '|') :: read (column + 2) t
  | column, '\\' :: '\\' :: t => (column, .escaped '\\') :: read (column + 2) t
  | column, '\\' :: 'n' :: t => (column, .escaped '\n') :: read (column + 2) t
  | column, '|' :: t => (column, .pipe) :: read (column + 1) t
  | column, c :: t => (column, .plain c) :: read (column + 1) t

/-- The runs of signs between pipes: one more than there are pipes. -/
def runs : List (Nat × Glyph) → List (List (Nat × Glyph))
  | [] => [[]]
  | glyph :: rest =>
    if glyph.2 = .pipe then [] :: runs rest
    else match runs rest with
      | [] => [[glyph]]
      | run :: others => (glyph :: run) :: others

end Glyph

/-- The value of a cell and the column where it begins, counted from 1. An empty
value begins where its cell does; a cell without any sign is placed at column 1. -/
structure Cell where
  column : Nat
  value : Text
deriving DecidableEq, Repr

namespace Cell

/-- A run of signs without the blanks at its ends. -/
def trimRun (run : List (Nat × Glyph)) : List (Nat × Glyph) :=
  ((run.dropWhile fun glyph => glyph.2.isBlank).reverse.dropWhile
    fun glyph => glyph.2.isBlank).reverse

/-- The cell that a run of signs makes up. -/
def ofRun (run : List (Nat × Glyph)) : Cell :=
  let kept := trimRun run
  ⟨((kept.head?.or run.head?).map Prod.fst).getD 1, kept.map fun glyph => glyph.2.value⟩

/-- The cells of a row: what stands between its first and its last pipe. -/
def split (line : Text) : List Cell :=
  ((Glyph.runs (Glyph.read 1 line)).tail.dropLast).map ofRun

/-- A character of a value as it is written in a cell. -/
def escapeChar (c : Char) : Text :=
  if c = '\\' then ['\\', '\\']
  else if c = '|' then ['\\', '|']
  else if c = '\n' then ['\\', 'n']
  else [c]

/-- A value as it is written in a cell. -/
def escape (value : Text) : Text := value.flatMap escapeChar

end Cell

end Gherkin
