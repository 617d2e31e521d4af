import Gherkin.Text.Basic

/-!
# What stands right of a character

The width of a text is counted from its end, so what decides the width of a
character together with its neighbours is what has been passed already: the
neighbour, and a variation selector between the two.
-/

namespace Gherkin

namespace Text

namespace Width

/-- What stands right of a character, as far as the width of both depends on it. -/
inductive Neighbour where
  | plain
  | lineFeed
  /-- An Arabic alef. -/
  | alef
  /-- A Hebrew lamed, maybe with a joiner in front of it. -/
  | lamed (joined : Bool)
  /-- A Khmer letter that can be written below another one. -/
  | khmerLetter
  /-- A Buginese ya, maybe with a joiner in front of it. -/
  | bugineseYa (joined : Bool)
  /-- The Buginese vowel sign i with a joiner and ya behind it. -/
  | bugineseSyllable
  /-- A Tifinagh consonant, maybe with a joiner in front of it. -/
  | tifinaghConsonant (joined : Bool)
  /-- The Tifinagh consonant joiner with a consonant behind it. -/
  | tifinaghJoiner
  /-- A Lisu tone letter that closes a pair. -/
  | lisuTone
  /-- An Old Turkic letter i, maybe with a joiner in front of it. -/
  | orkhonI (joined : Bool)
  /-- The Kirat Rai vowel sign e. -/
  | kiratE
  /-- The Kirat Rai vowel sign ai, or two signs e. -/
  | kiratAi
  /-- An emoji or a sequence shown as one. -/
  | emoji
  /-- A skin tone. -/
  | skinTone
  /-- A regional indicator. -/
  | indicator
  /-- Two or more regional indicators. -/
  | indicators
  /-- A joiner with an emoji behind it. -/
  | joiner
  /-- An enclosing keycap in front of a joiner with an emoji behind it. -/
  | joinedKeycap
  /-- A regional indicator in front of a joiner with an emoji behind it. -/
  | joinedIndicator
  /-- Pairs of regional indicators in front of a joiner with an emoji behind it. -/
  | joinedPairs
  /-- Pairs of regional indicators, and one more, in front of a joiner with an emoji
  behind it. -/
  | joinedPairsAndOne
  /-- A run of tags that ends in the given number of letters, in front of a joiner with
  an emoji behind it. -/
  | joinedTagLetters (count : Nat)
  /-- A run of tags that begins with the given number of digits, in front of a joiner
  with an emoji behind it. -/
  | joinedTagDigits (count : Nat)
deriving DecidableEq, Repr

namespace Neighbour

/-- Whether joiners and ignorable marks can stand in front of a neighbour and leave it
in reach. -/
def admitsMarks : Neighbour → Bool
  | lamed _ | khmerLetter | bugineseYa _ | bugineseSyllable | tifinaghConsonant _
  | tifinaghJoiner | lisuTone | orkhonI _ => true
  | _ => false

/-- Whether a neighbour is a letter that can join what stands left of it. -/
def isLetter (neighbour : Neighbour) : Bool := neighbour = alef || neighbour.admitsMarks

/-- Whether an emoji in front of a neighbour is one sign with it. -/
def awaitsEmoji (neighbour : Neighbour) : Bool :=
  neighbour = joiner || neighbour = joinedKeycap

/-- A neighbour with a joiner in front of it. -/
def join : Neighbour → Neighbour
  | lamed _ => lamed true
  | bugineseYa _ => bugineseYa true
  | tifinaghConsonant _ => tifinaghConsonant true
  | orkhonI _ => orkhonI true
  | neighbour => neighbour

end Neighbour

/-- A variation selector right of a character. -/
inductive Selector where
  | none
  | asText
  | asEmoji
  | asWide
deriving DecidableEq, Repr

/-- All that stands right of a character. -/
structure Context where
  neighbour : Neighbour
  selector : Selector
deriving DecidableEq, Repr

namespace Context

/-- The context of a character without influence on what stands left of it. -/
def plain : Context := ⟨.plain, .none⟩

/-- The context a variation selector leaves: letters stay in view, and for an emoji
so does the one it is joined to. -/
def select (context : Context) (selector : Selector) : Context :=
  if context.neighbour.isLetter || (selector = .asEmoji && context.neighbour.awaitsEmoji) then
    ⟨context.neighbour, selector⟩
  else ⟨.plain, selector⟩

/-- The context when a selector finds nothing to choose: only letters stay in view. -/
def unselected (context : Context) : Context :=
  if context.neighbour.isLetter then ⟨context.neighbour, .none⟩ else plain

end Context

end Width

end Text

end Gherkin
