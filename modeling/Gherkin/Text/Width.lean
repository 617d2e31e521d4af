import Gherkin.Text.Width.Emoji

/-!
# Display width

The number of columns a text takes in a terminal. Most characters count on
their own; the exceptions (emoji sequences, letters that join into one sign, a
carriage return before a newline) depend on what stands to the right, so a text
is measured from its end.
-/

namespace Gherkin

namespace Text

namespace Width

/-- Quotation marks, which a variation selector can make wide. -/
def isCurlyQuote (c : Char) : Bool :=
  let n := c.toNat
  n == 0x2018 || n == 0x2019 || n == 0x201C || n == 0x201D

/-- The selector that a character is. -/
def selector? (c : Char) : Option Selector :=
  if c.toNat = 0xFE0F then some .asEmoji
  else if c.toNat = 0xFE0E then some .asText
  else if c.toNat = 0xFE01 then some .asWide
  else none

/-- Width of a character whose neighbour does not change it, and what it is for the
character left of it. -/
def alone (c : Char) : Int × Neighbour :=
  if zero.contains c then (0, .plain)
  else if isSkinTone c then (2, .skinTone)
  else if isIndicator c then (1, .indicator)
  else if emoji.contains c then (2, .emoji)
  else if double.contains c then (2, .plain)
  else if c.toNat = 0x17D8 then (3, .plain)
  else (1, letter c)

/-- Width and context of a character beyond the Latin-1 controls, whose
neighbour asks for no emoji presentation. -/
def beside (context : Context) (c : Char) : Int × Context :=
  match selector? c with
  | some selector => (0, context.select selector)
  | none =>
    if context.selector = .asText && selectable.contains c && emoji.contains c &&
        !isEnclosedIdeograph c then (1, .plain)
    else if context.selector = .asWide && isCurlyQuote c then (2, .plain)
    else
      let (columns, neighbour) :=
        ((ligature context.neighbour c).or (sequence context.neighbour c)).getD (alone c)
      (columns, ⟨neighbour, .none⟩)

/-- Width and context of a character in front of a context. -/
def step (context : Context) (c : Char) : Int × Context :=
  if context.selector = .asEmoji && selectable.contains c then
    (if context.neighbour.awaitsEmoji then 0 else 2, ⟨.emoji, .none⟩)
  else
    let context := if context.selector = .asEmoji then context.unselected else context
    if c.toNat ≤ 0xA0 then
      if c = '\n' then (1, ⟨.lineFeed, .none⟩)
      else if c = '\r' && context.neighbour = .lineFeed then (0, .plain)
      else (1, .plain)
    else beside context c

end Width

/-- The number of columns a text takes, counted from its end. -/
def width (t : Text) : Nat :=
  (t.foldr (fun c (total : Int × Width.Context) =>
    let (columns, context) := Width.step total.2 c
    (total.1 + columns, context)) (0, Width.Context.plain)).1.toNat

end Text

end Gherkin
