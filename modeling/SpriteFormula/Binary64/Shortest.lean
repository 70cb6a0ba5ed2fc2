import SpriteFormula.Binary64.Literal

/-!
Writing numbers in decimal: of the numerals that read back as the number, one with the fewest
digits, and of those the nearest. Always positional, never with an exponent.
-/

namespace SpriteFormula

/-- The numeral in positional notation. A fraction has a digit before its point. -/
def Decimal.text (d : Decimal) : List Char :=
  let digits := Nat.toDigits 10 d.digits
  if 0 ≤ d.exponent then digits ++ List.replicate d.exponent.toNat '0'
  else
    let places := d.exponent.natAbs
    let padded := digits.leftpad (places + 1) '0'
    padded.take (padded.length - places) ++ '.' :: padded.drop (padded.length - places)

namespace Binary64

/-- The scale at which even the least number has more digits than a numeral needs. -/
def searchScale : Nat := 350

/-- The nearest numeral with `n` digits that reads back as the magnitude, if one does. It is one of
the number's two neighbours on the grid of numerals with `n` digits; a tie goes up. -/
def numeralOfLength? (v : Binary64) (n : Nat) : Option Decimal :=
  let scaled := v.units * 10 ^ searchScale
  let length := (Nat.toDigits 10 (scaled / unitsPerOne)).length
  let step := 10 ^ (length - n)
  let exponent : Int := (length - n : Nat) - (searchScale : Int)
  let below := scaled / unitsPerOne / step
  let lower : Decimal := ⟨below, exponent⟩
  let upper : Decimal :=
    if below + 1 = 10 ^ n then ⟨1, exponent + n⟩ else ⟨below + 1, exponent⟩
  let lowerGap := scaled - below * step * unitsPerOne
  let upperGap := (below + 1) * step * unitsPerOne - scaled
  let candidates := if lowerGap < upperGap then [lower, upper] else [upper, lower]
  candidates.find? fun d => ofDecimal d = v.magnitude

/-- Every digit of the number. -/
def exactNumeral (v : Binary64) : Decimal := ⟨v.units * 5 ^ 1074, -1074⟩

/-- The shortest numeral that reads back as the magnitude; 17 digits are always enough. -/
def shortestNumeral (v : Binary64) : Decimal :=
  ((List.range' 1 17).findSome? v.numeralOfLength?).getD v.exactNumeral

def magnitudeText (v : Binary64) : List Char :=
  if v.isInfinite then ['i', 'n', 'f']
  else if v.isZero then ['0']
  else v.shortestNumeral.text

/-- The text of a number, with a sign in front exactly when the sign bit is set. -/
def text (v : Binary64) : String :=
  if v.isNaN then "NaN"
  else String.ofList (if v.isNegative then '-' :: v.magnitudeText else v.magnitudeText)

end Binary64

end SpriteFormula
