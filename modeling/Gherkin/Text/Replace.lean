import Gherkin.Text.Basic

/-!
# Replacing a text inside another one

Occurrences are taken from the left and do not overlap: the search goes on
behind the occurrence that was replaced.
-/

namespace Gherkin

namespace Text

/-- Replaces the occurrences of `old`, the first `skipped` characters being part
of an occurrence that is already replaced. -/
def replaceFrom (old new : Text) : (skipped : Nat) → Text → Text
  | _, [] => []
  | skipped + 1, _ :: t => replaceFrom old new skipped t
  | 0, c :: t =>
    if old.isPrefixOf (c :: t) then new ++ replaceFrom old new (old.length - 1) t
    else c :: replaceFrom old new 0 t

/-- Replaces each occurrence of the non-empty text `old` by `new`, leftmost first
and without overlap. -/
def replace (old new t : Text) : Text := replaceFrom old new 0 t

end Text

end Gherkin
