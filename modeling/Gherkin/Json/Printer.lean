import Gherkin.Json.Basic
import Gherkin.Decimal.Notation

/-!
# Compact JSON text

A value is written without blanks, its fields in order. Quotes, backslashes and
control characters are escaped; every other character stands for itself.
-/

namespace Gherkin

namespace Json

/-- A character inside a quoted text. -/
def escape (c : Char) : Text :=
  if c = '"' then ['\\', '"']
  else if c = '\\' then ['\\', '\\']
  else if c = '\n' then ['\\', 'n']
  else if c = '\r' then ['\\', 'r']
  else if c = '\t' then ['\\', 't']
  else if c.toNat = 8 then ['\\', 'b']
  else if c.toNat = 12 then ['\\', 'f']
  else if c.toNat < 32 then
    ['\\', 'u', '0', '0', Nat.digitChar (c.toNat / 16), Nat.digitChar (c.toNat % 16)]
  else [c]

/-- A text between quotes. -/
def quote (t : Text) : Text := '"' :: (t.flatMap escape ++ ['"'])

/-- A number as data shows it. -/
def Number.render : Number → Text
  | .integer n => Decimal.integer n
  | .double bits => (Decimal.Double.ofBits bits).written

mutual

/-- The compact text of a value. -/
def render : Json → Text
  | .null => Text.word "null"
  | .bool true => Text.word "true"
  | .bool false => Text.word "false"
  | .number n => Number.render n
  | .text t => quote t
  | .list items => '[' :: (renderItems items ++ [']'])
  | .fields entries => '\x7b' :: (renderFields entries ++ ['\x7d'])

/-- Items with a comma between each two. -/
def renderItems : List Json → Text
  | [] => []
  | [item] => render item
  | item :: next :: rest => render item ++ ',' :: renderItems (next :: rest)

/-- Fields with a comma between each two. -/
def renderFields : List (String × Json) → Text
  | [] => []
  | [(key, value)] => quote (Text.word key) ++ ':' :: render value
  | (key, value) :: next :: rest =>
    quote (Text.word key) ++ ':' :: (render value ++ ',' :: renderFields (next :: rest))

end

end Json

end Gherkin
