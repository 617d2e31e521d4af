import Gherkin.Text.Width.Ligature

/-!
# Emoji sequences

Skin tones, flags, keycaps and emoji held together by joiners are shown as one
emoji. The rules read a sequence from its end, as those for letters do.
-/

namespace Gherkin

namespace Text

namespace Width

/-- The five skin tones. -/
def isSkinTone (c : Char) : Bool := 0x1F3FB ≤ c.toNat && c.toNat ≤ 0x1F3FF

/-- Regional indicators, two of which make a flag. -/
def isIndicator (c : Char) : Bool := 0x1F1E6 ≤ c.toNat && c.toNat ≤ 0x1F1FF

/-- The black flag, which tags turn into the flag of a region. -/
def isBlackFlag (c : Char) : Bool := c.toNat == 0x1F3F4

/-- Tags that stand for letters. -/
def isTagLetter (c : Char) : Bool := 0xE0061 ≤ c.toNat && c.toNat ≤ 0xE007A

/-- Tags that stand for digits. -/
def isTagDigit (c : Char) : Bool := 0xE0030 ≤ c.toNat && c.toNat ≤ 0xE0039

/-- Characters of the block of enclosed ideographs, always shown in two columns. -/
def isEnclosedIdeograph (c : Char) : Bool := 0x1F200 ≤ c.toNat && c.toNat ≤ 0x1F2FF

/-- What a character adds in front of an emoji that it belongs to. A pair of
indicators in front of a joiner is a flag that adds nothing. -/
def sequence (neighbour : Neighbour) (c : Char) : Option (Int × Neighbour) :=
  match neighbour with
  | .emoji => if isJoiner c then some (0, .joiner) else none
  | .skinTone =>
    if modified.contains c then some (0, .emoji)
    else if isJoiner c then some (0, .joiner)
    else none
  | .indicator => if isIndicator c then some (1, .indicators) else none
  | .indicators =>
    if isIndicator c then some (1, .indicators)
    else if isJoiner c then some (0, .joiner)
    else none
  | .joiner =>
    if c.toNat = 0x20E3 then some (0, .joinedKeycap)
    else if isIndicator c then some (1, .joinedIndicator)
    else if isSkinTone c then some (0, .skinTone)
    else if c.toNat = 0xE007F then some (0, .joinedTagLetters 0)
    else if emoji.contains c then some (0, .emoji)
    else none
  | .joinedIndicator => if isIndicator c then some (-1, .joinedPairs) else none
  | .joinedPairs =>
    if isIndicator c then some (3, .joinedPairsAndOne)
    else if isJoiner c then some (0, .joiner)
    else none
  | .joinedPairsAndOne =>
    if isIndicator c then some (-1, .joinedPairs)
    else if isJoiner c then some (0, .joiner)
    else none
  | .joinedTagLetters count =>
    if isTagLetter c && count < 6 then some (0, .joinedTagLetters (count + 1))
    else if isTagDigit c && count ≤ 4 then some (0, .joinedTagDigits 1)
    else if isBlackFlag c && 3 ≤ count then some (0, .emoji)
    else none
  | .joinedTagDigits count =>
    if isTagDigit c && count < 3 then some (0, .joinedTagDigits (count + 1))
    else if isBlackFlag c && count = 3 then some (0, .emoji)
    else none
  | _ => none

end Width

end Text

end Gherkin
