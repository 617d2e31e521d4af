import Gherkin.Text.Basic

/-!
# Tag lines

A tag line is a run of words. A word that begins with a number sign starts a
comment, which reaches to the end of the line.
-/

namespace Gherkin

/-- A word of a line and the column it begins at, counted from 1. -/
structure Word where
  column : Nat
  text : Text
deriving DecidableEq, Repr

namespace Word

/-- Puts a character in front of the first word. -/
def extend (column : Nat) (c : Char) : List Word → List Word
  | [] => [⟨column, [c]⟩]
  | word :: rest => ⟨column, c :: word.text⟩ :: rest

/-- The words of a text that begins at a given column. -/
def split : (column : Nat) → Text → List Word
  | _, [] => []
  | column, [c] => if Text.isBlank c then [] else [⟨column, [c]⟩]
  | column, c :: d :: t =>
    let rest := split (column + 1) (d :: t)
    if Text.isBlank c then rest
    else if Text.isBlank d then ⟨column, [c]⟩ :: rest
    else extend column c rest

/-- The words in front of the comment, if there is one. -/
def beforeComment (words : List Word) : List Word :=
  words.takeWhile fun word => word.text.head? != some '#'

/-- Whether a word is a tag: an at sign and at least one character more. -/
def isTag (word : Word) : Bool :=
  match word.text with
  | '@' :: _ :: _ => true
  | _ => false

end Word

end Gherkin
