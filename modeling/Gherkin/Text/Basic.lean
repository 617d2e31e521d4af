/-!
# Text

Source text, names, cell values and whole documents are lists of characters.
This module holds what every layer asks of a text: which characters are blank,
trimming, indentation, and matching a text at the front of another one.
-/

namespace Gherkin

/-- A text is the list of its characters. -/
abbrev Text := List Char

namespace Text

/-- The characters with the Unicode property `White_Space`. -/
def isBlank (c : Char) : Bool :=
  let n := c.toNat
  (9 ≤ n && n ≤ 13) || n == 0x20 || n == 0x85 || n == 0xA0 || n == 0x1680 ||
    (0x2000 ≤ n && n ≤ 0x200A) || n == 0x2028 || n == 0x2029 || n == 0x202F ||
    n == 0x205F || n == 0x3000

/-- A text without the blanks it begins with. -/
def trimStart (t : Text) : Text := t.dropWhile isBlank

/-- A text without the blanks it ends with. -/
def trimEnd (t : Text) : Text := (t.reverse.dropWhile isBlank).reverse

/-- A text without the blanks at either end. -/
def trim (t : Text) : Text := trimEnd (trimStart t)

/-- The number of blanks a text begins with. -/
def indent (t : Text) : Nat := (t.takeWhile isBlank).length

/-- A text without its first blanks, at most `limit` of them. -/
def dropIndent : (limit : Nat) → Text → Text
  | 0, t => t
  | _ + 1, [] => []
  | limit + 1, c :: t => if isBlank c then dropIndent limit t else c :: t

/-- What follows `front` in a text that begins with it. -/
def after? : (front : Text) → Text → Option Text
  | [], t => some t
  | _ :: _, [] => none
  | a :: front, b :: t => if a = b then after? front t else none

/-- A text repeated `count` times. -/
def repeated (count : Nat) (t : Text) : Text := (List.replicate count t).flatten

/-- The texts in order with `separator` between each two. -/
def join (separator : Text) (texts : List Text) : Text :=
  List.intercalate separator texts

/-- The text a constant word stands for. -/
def word (s : String) : Text := s.toList

/-- Whether a text comes before another one in the order of code points. -/
def before (a b : Text) : Bool := decide (a < b)

/-- The blanks that core knows are blanks here. -/
theorem isBlank_of_isWhitespace {c : Char} (blank : c.isWhitespace = true) :
    isBlank c = true := by
  simp only [Char.isWhitespace, Bool.or_eq_true, decide_eq_true_eq] at blank
  rcases blank with ((rfl | rfl) | rfl) | rfl <;> rfl

theorem after?_eq_some_iff {front t rest : Text} :
    after? front t = some rest ↔ t = front ++ rest := by
  induction front generalizing t with
  | nil => simp [after?, eq_comm]
  | cons a front ih =>
    cases t with
    | nil => simp [after?]
    | cons b t =>
      by_cases same : a = b
      · simp [after?, same, ih]
      · simp [after?, same, eq_comm (a := b)]

end Text

end Gherkin
