import Gherkin.Text.Width.Context
import Gherkin.Text.Width.Tables

/-!
# Letters that join into one sign

Pairs and triples of letters that a terminal shows as one sign. A rule says, for a
character and its right neighbour, how many columns the character adds to those
counted so far; the number is negative where it makes its neighbour narrower.
-/

namespace Gherkin

namespace Text

namespace Width

/-- The Arabic letters that join with a following alef. -/
def isLam (c : Char) : Bool :=
  let n := c.toNat
  n == 0x644 || (0x6B5 ≤ n && n ≤ 0x6B8) || n == 0x76A || n == 0x8A6 || n == 0x8C7

/-- The forms of the Arabic letter alef. -/
def isAlef (c : Char) : Bool :=
  let n := c.toNat
  n == 0x622 || n == 0x623 || n == 0x625 || n == 0x627 || (0x671 ≤ n && n ≤ 0x673) ||
    n == 0x675 || n == 0x773 || n == 0x774 || (0x870 ≤ n && n ≤ 0x882)

/-- The zero-width joiner. -/
def isJoiner (c : Char) : Bool := c.toNat == 0x200D

/-- Marks that are ignored by default, such as variation selectors. -/
def isIgnorableMark (c : Char) : Bool :=
  let n := c.toNat
  n == 0x34F || n == 0x17B4 || n == 0x17B5 || (0x180B ≤ n && n ≤ 0x180D) || n == 0x180F ||
    (0xFE00 ≤ n && n ≤ 0xFE0F) || (0xE0100 ≤ n && n ≤ 0xE01EF)

/-- Khmer letters that can be written below another one. -/
def khmer : Ranges :=
  #[(0x1780, 0x1782), (0x1784, 0x1787), (0x1789, 0x178C), (0x178E, 0x1793), (0x1795, 0x1798),
    (0x179B, 0x179D), (0x17A0, 0x17A0), (0x17A2, 0x17A2), (0x17A7, 0x17A7), (0x17AB, 0x17AC),
    (0x17AF, 0x17AF)]

/-- Tifinagh consonants. -/
def tifinagh : Ranges := #[(0x2D31, 0x2D65), (0x2D6F, 0x2D6F)]

/-- The neighbour that a letter is for what stands left of it. -/
def letter (c : Char) : Neighbour :=
  let n := c.toNat
  if isAlef c then .alef
  else if n = 0x5DC then .lamed false
  else if khmer.contains c then .khmerLetter
  else if n = 0x1A10 then .bugineseYa false
  else if tifinagh.contains c then .tifinaghConsonant false
  else if n = 0xA4FC || n = 0xA4FD then .lisuTone
  else if n = 0x10C03 then .orkhonI false
  else if n = 0x16D67 then .kiratE
  else if n = 0x16D68 then .kiratAi
  else .plain

/-- What a character adds in front of a letter that it joins. -/
def ligature (neighbour : Neighbour) (c : Char) : Option (Int × Neighbour) :=
  let n := c.toNat
  if neighbour.admitsMarks && isJoiner c then some (0, neighbour.join)
  else if neighbour.admitsMarks && isIgnorableMark c then some (0, neighbour)
  else
    match neighbour with
    | .alef =>
      if isLam c then some (0, .plain)
      else if zero.contains c && !severing.contains c then some (0, .alef)
      else none
    | .lamed true => if n = 0x5D0 then some (0, .plain) else none
    | .khmerLetter => if n = 0x17D2 then some (-1, .plain) else none
    | .bugineseYa true => if n = 0x1A17 then some (0, .bugineseSyllable) else none
    | .bugineseSyllable => if n = 0x1A15 then some (0, .plain) else none
    | .tifinaghConsonant joined =>
      if n = 0x2D7F then some (1, .tifinaghJoiner)
      else if joined && tifinagh.contains c then some (0, .plain)
      else none
    | .tifinaghJoiner => if tifinagh.contains c then some (-1, .plain) else none
    | .lisuTone => if 0xA4F8 ≤ n && n ≤ 0xA4FB then some (0, .plain) else none
    | .orkhonI true => if n = 0x10C32 then some (0, .plain) else none
    | .kiratE =>
      if n = 0x16D63 || n = 0x16D69 then some (0, .plain)
      else if n = 0x16D67 then some (0, .kiratAi)
      else if n = 0x16D68 then some (1, .kiratE)
      else none
    | .kiratAi => if n = 0x16D63 then some (0, .plain) else none
    | _ => none

end Width

end Text

end Gherkin
