import Gherkin.Decimal.Shortest

/-!
# Decimal notation of doubles

Both notations write the shortest digits that read back. `written` is the one of
data: it always shows that the number is no integer, and turns to powers of ten
for very large and very small magnitudes. `plain` is the one of settings: always
positional, and a whole number has no point.
-/

namespace Gherkin

namespace Decimal

/-- Digits in positional notation, with the fraction digits apart. -/
def positional (digits : List Char) (leading : Int) : List Char × List Char :=
  if leading < 0 then (['0'], List.replicate (-leading - 1).toNat '0' ++ digits)
  else
    let whole := leading.toNat + 1
    (digits.take whole ++ List.replicate (whole - digits.length) '0', digits.drop whole)

/-- A signed integer in decimal. -/
def integer (n : Int) : List Char :=
  if n < 0 then '-' :: Nat.toDigits 10 n.natAbs else Nat.toDigits 10 n.toNat

/-- The notation of a double in data: positional while the exponent of the first
digit is from -5 to 15, and never like an integer. -/
def Double.written : Double → List Char
  | .infinite negative => (if negative then "-inf" else "inf").toList
  | .notANumber => "NaN".toList
  | .finite b =>
    let (digits, leading) := b.shortest.digits
    let magnitude :=
      if -5 ≤ leading ∧ leading ≤ 15 then
        let (whole, fraction) := positional digits leading
        whole ++ '.' :: (if fraction.isEmpty then ['0'] else fraction)
      else
        digits.take 1 ++ (if digits.length > 1 then '.' :: digits.drop 1 else []) ++
          'e' :: ((if leading < 0 then [] else ['+']) ++ integer leading)
    if b.negative then '-' :: magnitude else magnitude

/-- The positional notation of a double in settings. -/
def Double.plain : Double → List Char
  | .infinite negative => (if negative then "-inf" else "inf").toList
  | .notANumber => "NaN".toList
  | .finite b =>
    let (digits, leading) := b.shortest.digits
    let (whole, fraction) := positional digits leading
    let magnitude := whole ++ if fraction.isEmpty then [] else '.' :: fraction
    if b.negative then '-' :: magnitude else magnitude

end Decimal

end Gherkin
