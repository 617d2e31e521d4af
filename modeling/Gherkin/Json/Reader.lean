import Gherkin.Json.Basic

/-!
# Reading JSON text

An integer literal in the range of 64-bit words is an integer; every other
number is a double: the digits that fit into 64 bits, scaled by one power of
ten. A number beyond the doubles is no number.
-/

namespace Gherkin

namespace Json

/-- A text without the JSON blanks it begins with. -/
def skipBlanks (t : Text) : Text :=
  t.dropWhile fun c => c = ' ' || c = '\n' || c = '\t' || c = '\r'

/-- The value of a hexadecimal digit. -/
def hexDigit? (c : Char) : Option Nat :=
  if c.isDigit then some (c.toNat - 48)
  else if 'a' ≤ c ∧ c ≤ 'f' then some (c.toNat - 87)
  else if 'A' ≤ c ∧ c ≤ 'F' then some (c.toNat - 55)
  else none

/-- Four hexadecimal digits and what follows them. -/
def hexUnit? : Text → Option (Nat × Text)
  | a :: b :: c :: d :: rest => do
    let a ← hexDigit? a
    let b ← hexDigit? b
    let c ← hexDigit? c
    let d ← hexDigit? d
    pure (((a * 16 + b) * 16 + c) * 16 + d, rest)
  | _ => none

/-- The character of an escape, given by what follows its backslash. -/
def escaped? : Text → Option (Char × Text)
  | '"' :: rest => some ('"', rest)
  | '\\' :: rest => some ('\\', rest)
  | '/' :: rest => some ('/', rest)
  | 'b' :: rest => some (Char.ofNat 8, rest)
  | 'f' :: rest => some (Char.ofNat 12, rest)
  | 'n' :: rest => some ('\n', rest)
  | 'r' :: rest => some ('\r', rest)
  | 't' :: rest => some ('\t', rest)
  | 'u' :: rest => do
    let (unit, rest) ← hexUnit? rest
    if 0xD800 ≤ unit ∧ unit < 0xDC00 then
      match rest with
      | '\\' :: 'u' :: rest => do
        let (low, rest) ← hexUnit? rest
        if 0xDC00 ≤ low ∧ low < 0xE000 then
          pure (Char.ofNat (0x10000 + (unit - 0xD800) * 0x400 + (low - 0xDC00)), rest)
        else none
      | _ => none
    else if 0xDC00 ≤ unit ∧ unit < 0xE000 then none
    else pure (Char.ofNat unit, rest)
  | _ => none

/-- The characters up to the closing quote, put behind `read` in reverse. -/
def quoted? (read : Text) : (fuel : Nat) → Text → Option (Text × Text)
  | 0, _ => none
  | _ + 1, '"' :: rest => some (read.reverse, rest)
  | fuel + 1, '\\' :: rest => do
    let (c, rest) ← escaped? rest
    quoted? (c :: read) fuel rest
  | fuel + 1, c :: rest => if c.toNat < 32 then none else quoted? (c :: read) fuel rest
  | _ + 1, [] => none

/-- The first number that is too large for a word; significands stay below it. -/
def wordLimit : Nat := Nat.pow 2 64

/-- Adds digits to a significand while it fits into a word; the result tells how
many were added and how many digits more there are. -/
def addDigits (significand : Nat) : (added : Nat) → Text → Nat × Nat × Nat
  | added, [] => (significand, added, 0)
  | added, c :: rest =>
    let next := significand * 10 + (c.toNat - 48)
    if next < wordLimit then addDigits next (added + 1) rest
    else (significand, added, rest.length + 1)

/-- A power of ten that a double can hold. -/
def powerOfTen (exponent : Nat) : Float := Float.ofScientific 1 false exponent

/-- A significand scaled by a power of ten; `none` beyond the doubles. -/
def scaled? (significand : Nat) (exponent : Int) : Option Float :=
  let f := significand.toUInt64.toFloat
  if exponent > 308 then if significand = 0 then some f else none
  else if exponent ≥ 0 then
    let product := f * powerOfTen exponent.toNat
    if product.isInf then none else some product
  else if exponent ≥ -308 then some (f / powerOfTen (-exponent).toNat)
  else if exponent ≥ -616 then
    some (f / powerOfTen 308 / powerOfTen (-exponent - 308).toNat)
  else some 0

/-- The exponent of a number and what follows it; without one the exponent is 0. -/
def exponent? : Text → Option (Int × Text)
  | c :: rest =>
    if c = 'e' ∨ c = 'E' then
      let (negative, rest) :=
        match rest with
        | '-' :: rest => (true, rest)
        | '+' :: rest => (false, rest)
        | rest => (false, rest)
      let digits := rest.takeWhile Char.isDigit
      if digits.isEmpty then none
      else
        let magnitude : Int := digits.foldl (fun n d => n * 10 + (d.toNat - 48)) (0 : Nat)
        some (if negative then -magnitude else magnitude, rest.drop digits.length)
    else some (0, c :: rest)
  | [] => some (0, [])

/-- The number a text begins with, and what follows it. -/
def number? (t : Text) : Option (Number × Text) := do
  let (negative, t) := match t with
    | '-' :: rest => (true, rest)
    | _ => (false, t)
  let whole := t.takeWhile Char.isDigit
  let t := t.drop whole.length
  if whole.isEmpty || (whole.head? = some '0' && whole.length > 1) then none
  else
    let (significand, _, beyond) := addDigits 0 0 whole
    let fraction := match t with
      | '.' :: rest => some (rest.takeWhile Char.isDigit)
      | _ => none
    if fraction = some [] then none
    else
      let t := match fraction with
        | some digits => t.drop (digits.length + 1)
        | none => t
      let hasExponent := match t with
        | c :: _ => c = 'e' || c = 'E'
        | [] => false
      let (power, t) ← exponent? t
      let (significand, added, _) := addDigits significand 0 (fraction.getD [])
      let double : Option (Number × Text) := do
        let f ← scaled? significand (beyond - added + power)
        pure (.double (if negative then -f else f).toBits, t)
      if fraction.isSome || hasExponent || beyond > 0 then double
      else if negative then
        if significand = 0 || significand > wordLimit / 2 then double
        else pure (.integer (-significand), t)
      else pure (.integer significand, t)

mutual

/-- The value a text begins with, and what follows it. -/
def value? : (fuel : Nat) → Text → Option (Json × Text)
  | 0, _ => none
  | fuel + 1, t =>
    match skipBlanks t with
    | '\x7b' :: rest =>
      match skipBlanks rest with
      | '\x7d' :: rest => some (.fields [], rest)
      | rest => do
        let (entries, rest) ← members? fuel rest
        pure (object entries, rest)
    | '[' :: rest =>
      match skipBlanks rest with
      | ']' :: rest => some (.list [], rest)
      | rest => do
        let (items, rest) ← items? fuel rest
        pure (.list items, rest)
    | '"' :: rest => do
      let (t, rest) ← quoted? [] (rest.length + 1) rest
      pure (.text t, rest)
    | 'n' :: 'u' :: 'l' :: 'l' :: rest => some (.null, rest)
    | 't' :: 'r' :: 'u' :: 'e' :: rest => some (.bool true, rest)
    | 'f' :: 'a' :: 'l' :: 's' :: 'e' :: rest => some (.bool false, rest)
    | t => do
      let (n, rest) ← number? t
      pure (.number n, rest)

/-- The items of a list up to its closing bracket. -/
def items? : (fuel : Nat) → Text → Option (List Json × Text)
  | 0, _ => none
  | fuel + 1, t => do
    let (item, rest) ← value? fuel t
    match skipBlanks rest with
    | ',' :: rest => do
      let (items, rest) ← items? fuel rest
      pure (item :: items, rest)
    | ']' :: rest => pure ([item], rest)
    | _ => none

/-- The fields of an object up to its closing brace. -/
def members? : (fuel : Nat) → Text → Option (List (String × Json) × Text)
  | 0, _ => none
  | fuel + 1, t =>
    match skipBlanks t with
    | '"' :: rest => do
      let (key, rest) ← quoted? [] (rest.length + 1) rest
      match skipBlanks rest with
      | ':' :: rest => do
        let (value, rest) ← value? fuel rest
        match skipBlanks rest with
        | ',' :: rest => do
          let (entries, rest) ← members? fuel rest
          pure ((String.ofList key, value) :: entries, rest)
        | '\x7d' :: rest => pure ([(String.ofList key, value)], rest)
        | _ => none
      | _ => none
    | _ => none

end

/-- The value a whole text spells. -/
def parse? (t : Text) : Option Json := do
  let (value, rest) ← value? (t.length + 1) t
  if (skipBlanks rest).isEmpty then pure value else none

end Json

end Gherkin
