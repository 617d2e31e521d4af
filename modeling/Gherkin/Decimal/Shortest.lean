/-!
# The shortest decimal of a double

A finite double is an exact binary fraction. Of the decimals that read back as
it, the shortest one is the first hit on the grids of 1, 2, … 17 digits; on one
grid the two neighbours of the value are the only candidates.
-/

namespace Gherkin

namespace Decimal

/-- A power of two. -/
def binaryPower (n : Nat) : Nat := Nat.pow 2 n

/-- A power of ten. -/
def decimalPower (n : Nat) : Nat := Nat.pow 10 n

/-- The magnitude `mantissa · 2 ^ exponent` of a finite double and its sign. -/
structure Binary where
  negative : Bool
  mantissa : Nat
  exponent : Int
deriving DecidableEq

/-- A double as its bits spell it. -/
inductive Double where
  | finite (value : Binary)
  | infinite (negative : Bool)
  | notANumber
deriving DecidableEq

/-- Reads the sign, exponent and fraction fields of a double. -/
def Double.ofBits (bits : UInt64) : Double :=
  let n := bits.toNat
  let negative : Bool := n / binaryPower 63 = 1
  let field : Nat := n / binaryPower 52 % binaryPower 11
  let fraction : Nat := n % binaryPower 52
  if field = 2047 then
    if fraction = 0 then .infinite negative else .notANumber
  else if field = 0 then .finite ⟨negative, fraction, -1074⟩
  else .finite ⟨negative, fraction + binaryPower 52, (field : Int) - 1075⟩

/-- The decimal `significand · 10 ^ exponent`. -/
structure Numeral where
  significand : Nat
  exponent : Int
deriving DecidableEq

/-- A value and its rounding interval, in quarters of the last binary place. -/
structure Interval where
  low : Nat
  value : Nat
  high : Nat
  /-- Whether the ends round to the value as well. -/
  closed : Bool

/-- The reals that round to a double: half a place to either side, but only a
quarter below a power of two. -/
def Binary.interval (b : Binary) : Interval where
  low := 4 * b.mantissa - (if b.mantissa = binaryPower 52 ∧ b.exponent > -1074 then 1 else 2)
  value := 4 * b.mantissa
  high := 4 * b.mantissa + 2
  closed := b.mantissa % 2 = 0

/-- The decimal exponent of the leading digit of a positive magnitude. -/
def Binary.leading (b : Binary) : Int :=
  let scaled :=
    if b.exponent ≥ 0 then b.mantissa * binaryPower b.exponent.toNat * decimalPower 350
    else b.mantissa * decimalPower 350 / binaryPower (-b.exponent).toNat
  ((Nat.toDigits 10 scaled).length : Int) - 351

/-- The best decimal on the grid of step `10 ^ exponent` that reads back, if any. -/
def Interval.onGrid (i : Interval) (binary exponent : Int) : Option Numeral :=
  let unit := decimalPower exponent.toNat * binaryPower (2 - binary).toNat
  let quarter := decimalPower (-exponent).toNat * binaryPower (binary - 2).toNat
  let inside (d : Nat) : Bool :=
    if i.closed then i.low * quarter ≤ d * unit && d * unit ≤ i.high * quarter
    else i.low * quarter < d * unit && d * unit < i.high * quarter
  let below := i.value * quarter / unit
  let above := below + 1
  let lost := i.value * quarter - below * unit
  let gained := above * unit - i.value * quarter
  match inside below, inside above with
  | true, true =>
    if lost < gained || (lost = gained && below % 2 = 0) then some ⟨below, exponent⟩
    else some ⟨above, exponent⟩
  | true, false => some ⟨below, exponent⟩
  | false, true => some ⟨above, exponent⟩
  | false, false => none

/-- The shortest decimal that reads back as a double, of those the nearest one. -/
def Binary.shortest (b : Binary) : Numeral :=
  if b.mantissa = 0 then ⟨0, 0⟩
  else
    ((List.range 17).findSome? fun (digits : Nat) =>
      b.interval.onGrid b.exponent (b.leading - digits)).getD ⟨0, 0⟩

/-- The digits of a decimal without the zeros that end them, and the exponent of
the first digit. -/
def Numeral.digits (d : Numeral) : List Char × Int :=
  let all := Nat.toDigits 10 d.significand
  let kept := (all.reverse.dropWhile (· = '0')).reverse
  (if kept.isEmpty then ['0'] else kept, (all.length : Int) - 1 + d.exponent)

end Decimal

end Gherkin
