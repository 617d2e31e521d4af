import Gherkin.Text.Lines

/-!
# Descriptions

A description is kept without the blank lines around it, without blanks at the
end of its lines, and without the indentation that all its lines share.
-/

namespace Gherkin

namespace Description

/-- Lines without the empty ones at either end. -/
def dropOuter (lines : List Text) : List Text :=
  ((lines.dropWhile List.isEmpty).reverse.dropWhile List.isEmpty).reverse

/-- The smallest indentation of the lines that are not empty. -/
def sharedIndent (lines : List Text) : Nat :=
  ((lines.filter fun line => !line.isEmpty).map Text.indent).min?.getD 0

/-- The lines of a trimmed description. -/
def trimLines (raw : Text) : List Text :=
  let lines := dropOuter ((Text.lines raw).map Text.trimEnd)
  lines.map fun line => line.drop (sharedIndent lines)

/-- A description as elements keep it. -/
def trim (raw : Text) : Text := Text.unlines (trimLines raw)

end Description

end Gherkin
