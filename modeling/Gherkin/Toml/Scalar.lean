import Gherkin.Text.Basic

/-!
# Scalars of TOML

Keys, strings, numbers, truth values and dates. Every reader takes the characters
in front of it and returns what it read with the characters behind it, or nothing
if what it expects is not there.
-/

namespace Gherkin

namespace Toml

/-- A value that holds no other values. A date keeps its canonical text. -/
inductive Scalar where
  | text (value : Text)
  | integer (value : Int)
  | float (bits : UInt64)
  | boolean (value : Bool)
  | date (text : Text)
deriving DecidableEq, Repr

/-- The apostrophe, which quotes literal strings. -/
def apostrophe : Char := Char.ofNat 0x27

/-- The characters that separate tokens on a line. -/
def isSpace (c : Char) : Bool := c == ' ' || c == '\t'

/-- Skips separating characters. -/
def skipSpace (t : Text) : Text := t.dropWhile isSpace

/-- The characters that comments and literal strings consist of. -/
def isPrintable (c : Char) : Bool := c == '\t' || (32 ≤ c.toNat && c.toNat != 127)

/-- The characters of keys without quotes. -/
def isKeyChar (c : Char) : Bool := c.isAlphanum || c == '_' || c == '-'

/-- What stands behind a newline. -/
def newline? : Text → Option Text
  | '\n' :: t => some t
  | '\r' :: '\n' :: t => some t
  | _ => none

/-- Skips a comment, if there is one. -/
def comment? : Text → Option Text
  | '#' :: t =>
    let rest := t.dropWhile isPrintable
    if rest.isEmpty || (newline? rest).isSome then some rest else none
  | t => some t

/-- Skips blanks, newlines and comments. -/
def skipLines : (fuel : Nat) → Text → Option Text
  | 0, t => some t
  | fuel + 1, t =>
    match skipSpace t with
    | '#' :: rest => do
      let rest ← comment? ('#' :: rest)
      skipLines fuel rest
    | rest =>
      match newline? rest with
      | some rest => skipLines fuel rest
      | none => some rest

/-- The value of digits in a base up to sixteen. -/
def digits? (base : Nat) (t : Text) : Option Nat :=
  t.foldlM (fun n c =>
    let d :=
      if c.isDigit then c.toNat - 48
      else if 'a' ≤ c && c ≤ 'f' then c.toNat - 87
      else if 'A' ≤ c && c ≤ 'F' then c.toNat - 55
      else 16
    if d < base then some (n * base + d) else none) 0

/-- The character of an escape with a number of a given length. -/
def scalarValue? (length : Nat) (t : Text) : Option (Char × Text) := do
  let digits := t.take length
  let n ← digits? 16 digits
  if digits.length = length && (n < 0xD800 || (0xE000 ≤ n && n < 0x110000)) then
    pure (Char.ofNat n, t.drop length)
  else none

/-- The character of an escape, given by what follows its backslash. -/
def escape? : Text → Option (Char × Text)
  | 'b' :: t => some (Char.ofNat 8, t)
  | 't' :: t => some ('\t', t)
  | 'n' :: t => some ('\n', t)
  | 'f' :: t => some (Char.ofNat 12, t)
  | 'r' :: t => some ('\r', t)
  | '"' :: t => some ('"', t)
  | '\\' :: t => some ('\\', t)
  | 'u' :: t => scalarValue? 4 t
  | 'U' :: t => scalarValue? 8 t
  | _ => none

/-- A string on one line up to its closing quote. -/
def basic? : (fuel : Nat) → Text → Option (Text × Text)
  | 0, _ => none
  | _ + 1, '"' :: t => some ([], t)
  | fuel + 1, '\\' :: t => do
    let (c, t) ← escape? t
    let (rest, t) ← basic? fuel t
    pure (c :: rest, t)
  | fuel + 1, c :: t =>
    if isPrintable c then do
      let (rest, t) ← basic? fuel t
      pure (c :: rest, t)
    else none
  | _ + 1, [] => none

/-- A literal string on one line up to its closing apostrophe. -/
def literal? (t : Text) : Option (Text × Text) :=
  let read := t.takeWhile fun c => isPrintable c && c != apostrophe
  match t.drop read.length with
  | c :: rest => if c = apostrophe then some (read, rest) else none
  | [] => none

/-- The closing quotes of a string over several lines; up to two more quotes belong
to its contents. -/
def closing? (quote : Char) (t : Text) : Option (Text × Text) :=
  let quotes := t.takeWhile (· == quote)
  if 3 ≤ quotes.length then
    let kept := min (quotes.length - 3) 2
    some (List.replicate kept quote, t.drop (kept + 3))
  else none

/-- Skips blanks and newlines. -/
def skipBlank : Text → Text
  | ' ' :: t | '\t' :: t | '\n' :: t | '\r' :: '\n' :: t => skipBlank t
  | t => t

/-- Skips blanks and newlines behind a backslash that ends a line. -/
def skipFold (t : Text) : Option Text := (newline? (skipSpace t)).map skipBlank

/-- A string over several lines up to its closing quotes. -/
def multiline? (quote : Char) : (fuel : Nat) → Text → Option (Text × Text)
  | 0, _ => none
  | fuel + 1, t =>
    match closing? quote t with
    | some found => some found
    | none =>
      match newline? t with
      | some t => do
        let (rest, t) ← multiline? quote fuel t
        pure ('\n' :: rest, t)
      | none =>
        match t with
        | [] => none
        | c :: t =>
          if c = '\\' && quote = '"' then
            match skipFold t with
            | some t => multiline? quote fuel t
            | none => do
              let (c, t) ← escape? t
              let (rest, t) ← multiline? quote fuel t
              pure (c :: rest, t)
          else if isPrintable c then do
            let (rest, t) ← multiline? quote fuel t
            pure (c :: rest, t)
          else none

/-- What stands behind the newline that may follow opening quotes. -/
def skipFirstNewline (t : Text) : Text := (newline? t).getD t

/-- A string of any form. -/
def string? (t : Text) : Option (Text × Text) :=
  match t with
  | '"' :: '"' :: '"' :: rest => multiline? '"' (rest.length + 1) (skipFirstNewline rest)
  | '"' :: rest => basic? (rest.length + 1) rest
  | a :: rest =>
    if a = apostrophe then
      match rest with
      | b :: c :: inner =>
        if b = apostrophe && c = apostrophe then
          multiline? apostrophe (inner.length + 1) (skipFirstNewline inner)
        else literal? rest
      | _ => literal? rest
    else none
  | [] => none

/-- A part of a key. -/
def simpleKey? (t : Text) : Option (Text × Text) :=
  match t with
  | '"' :: rest => basic? (rest.length + 1) rest
  | c :: rest =>
    if c = apostrophe then literal? rest
    else
      let bare := t.takeWhile isKeyChar
      if bare.isEmpty then none else some (bare, t.drop bare.length)
  | [] => none

/-- The parts of a key between dots. -/
def keyParts? : (fuel : Nat) → Text → Option (List Text × Text)
  | 0, _ => none
  | fuel + 1, t => do
    let (part, t) ← simpleKey? (skipSpace t)
    match skipSpace t with
    | '.' :: t => do
      let (parts, t) ← keyParts? fuel t
      pure (part :: parts, t)
    | _ => pure ([part], t)

/-- The number of parts that no key reaches, and of levels that no value reaches. -/
def nestingLimit : Nat := 80

/-- A key with its parts between dots. -/
def key? (t : Text) : Option (List Text × Text) :=
  (keyParts? (t.length + 1) t).filter fun (parts, _) => parts.length < nestingLimit

/-- Digits in which single underscores stand only between digits. -/
def grouped? (t : Text) : Option Text :=
  let groups := t.splitOn '_'
  if groups.any List.isEmpty then none else some groups.flatten

/-- The first integer that is too large for a word of 64 bits. -/
def integerLimit : Int := (Nat.pow 2 63 : Nat)

/-- An integer that a word of 64 bits can hold. -/
def word? (n : Int) : Option Int :=
  if -integerLimit ≤ n && n < integerLimit then some n else none

/-- Digits without a leading zero. -/
def decimal? (t : Text) : Option Text := do
  let digits ← grouped? t
  if digits.all Char.isDigit && (digits.length = 1 || digits.head? != some '0') then pure digits
  else none

/-- An integer. -/
def integer? (t : Text) : Option Int := do
  match t with
  | '0' :: 'x' :: rest => word? (← digits? 16 (← grouped? rest))
  | '0' :: 'o' :: rest => word? (← digits? 8 (← grouped? rest))
  | '0' :: 'b' :: rest => word? (← digits? 2 (← grouped? rest))
  | '-' :: rest => word? (-(← digits? 10 (← decimal? rest)))
  | '+' :: rest => word? (← digits? 10 (← decimal? rest))
  | rest => word? (← digits? 10 (← decimal? rest))

/-- A float in digits without a sign. -/
def magnitude? (t : Text) : Option Float := do
  let mantissa := t.takeWhile fun c => c != 'e' && c != 'E'
  let power := t.drop mantissa.length
  let whole := mantissa.takeWhile (· != '.')
  let fraction := mantissa.drop whole.length
  let wholeDigits ← decimal? whole
  let fractionDigits ← match fraction with
    | '.' :: digits => grouped? digits
    | _ => some []
  let exponent ← match power with
    | _ :: '-' :: digits => do
      let n ← digits? 10 (← grouped? digits)
      some (-(n : Int))
    | _ :: '+' :: digits => do
      let n ← digits? 10 (← grouped? digits)
      some (n : Int)
    | _ :: digits => do
      let n ← digits? 10 (← grouped? digits)
      some (n : Int)
    | [] => some 0
  if fraction.isEmpty && power.isEmpty then none
  else
    let n ← digits? 10 (wholeDigits ++ fractionDigits)
    let scale := exponent - fractionDigits.length
    pure (Float.ofScientific n (scale < 0) scale.natAbs)

/-- A float. Digits may not name a number above all floats, but one below them is
negative infinity. -/
def float? (t : Text) : Option Float :=
  let (negative, rest) := match t with
    | '-' :: rest => (true, rest)
    | '+' :: rest => (false, rest)
    | rest => (false, rest)
  let read :=
    if rest = Text.word "inf" then some (1.0 / 0.0)
    else if rest = Text.word "nan" then some (0.0 / 0.0)
    else (magnitude? rest).filter fun f => negative || f.isFinite
  read.map fun f => if negative then -f else f

/-- The days of a month. -/
def monthLength (year month : Nat) : Nat :=
  if month = 2 then
    if year % 4 = 0 && (year % 100 != 0 || year % 400 = 0) then 29 else 28
  else if [4, 6, 9, 11].contains month then 30
  else 31

/-- The value of exactly two digits. -/
def twoDigits? (t : Text) : Option Nat :=
  if t.length = 2 && t.all Char.isDigit then digits? 10 t else none

/-- Whether a text is a day written year, month, day. -/
def isDay (t : Text) : Bool :=
  match t.splitOn '-' with
  | [year, month, day] =>
    match digits? 10 year, twoDigits? month, twoDigits? day with
    | some y, some m, some d =>
      year.length = 4 && 1 ≤ m && m ≤ 12 && 1 ≤ d && d ≤ monthLength y m
    | _, _, _ => false
  | _ => false

/-- The canonical text of a time of day: a fraction has no zeros at its end and at
most nine digits. -/
def time? (t : Text) : Option Text := do
  let clock := t.takeWhile (· != '.')
  let fraction := t.drop clock.length
  match clock.splitOn ':' with
  | [hour, minute, second] =>
    let h ← twoDigits? hour
    let m ← twoDigits? minute
    let s ← twoDigits? second
    if h ≤ 23 && m ≤ 59 && s ≤ 60 then
      match fraction with
      | [] => pure clock
      | '.' :: digits =>
        if digits.isEmpty || !digits.all Char.isDigit then none
        else
          let kept := ((digits.take 9).reverse.dropWhile (· == '0')).reverse
          pure (if kept.isEmpty then clock else clock ++ '.' :: kept)
      | _ => none
    else none
  | _ => none

/-- The canonical text of the offset at the end of a time, and the time before it. No
offset at all counts as one ahead. -/
def offset? (t : Text) : Option (Text × Text) :=
  match t.reverse with
  | 'Z' :: rest | 'z' :: rest => some (rest.reverse, ['Z'])
  | d :: c :: ':' :: b :: a :: sign :: rest =>
    if sign = '+' || sign = '-' then
      match twoDigits? [a, b], twoDigits? [c, d] with
      | some h, some m =>
        let sign := if h = 0 && m = 0 then '+' else sign
        if h ≤ 23 && m ≤ 59 then some (rest.reverse, [sign, a, b, ':', c, d]) else none
      | _, _ => none
    else some (t, [])
  | _ => some (t, [])

/-- The canonical text of a date, a time or both. -/
def date? (t : Text) : Option Text :=
  let day := t.take 10
  if isDay day then
    match t.drop 10 with
    | [] => some day
    | c :: rest =>
      if c = 'T' || c = 't' || c = ' ' then do
        let (clock, zone) ← offset? rest
        let time ← time? clock
        pure (day ++ 'T' :: time ++ zone)
      else none
  else time? t

/-- The characters of numbers, dates and truth values. -/
def isPlain (c : Char) : Bool := c.isAlphanum || ['_', '-', '+', '.', ':'].contains c

/-- The characters of a value without quotes. A date and a time may have a blank
between them. -/
def plainText (t : Text) : Text :=
  let first := t.takeWhile isPlain
  if isDay first then
    match t.drop first.length with
    | ' ' :: a :: rest =>
      if a.isDigit then first ++ ' ' :: a :: rest.takeWhile isPlain else first
    | _ => first
  else first

/-- A value without quotes. -/
def plain? (t : Text) : Option Scalar :=
  if t = Text.word "true" then some (.boolean true)
  else if t = Text.word "false" then some (.boolean false)
  else
    match integer? t, float? t, date? t with
    | some n, _, _ => some (.integer n)
    | none, some f, _ => some (.float f.toBits)
    | none, none, some text => some (.date text)
    | none, none, none => none

/-- A scalar. -/
def scalar? (t : Text) : Option (Scalar × Text) :=
  match t with
  | [] => none
  | c :: _ =>
    if c = '"' || c = apostrophe then (string? t).map fun (text, rest) => (.text text, rest)
    else
      let read := plainText t
      (plain? read).map fun scalar => (scalar, t.drop read.length)

end Toml

end Gherkin
