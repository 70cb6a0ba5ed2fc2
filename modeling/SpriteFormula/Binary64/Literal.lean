import SpriteFormula.Binary64.Rounding

/-!
Reading numbers written in decimal: the number nearest to the exact value of the text.
-/

namespace SpriteFormula

/-- The numeral `digits` · 10^`exponent`. -/
structure Decimal where
  digits : Nat
  exponent : Int
  deriving DecidableEq, Repr

def Decimal.digitsValue (digits : List Char) : Nat :=
  digits.foldl (fun value d => 10 * value + (d.toNat - '0'.toNat)) 0

namespace Binary64

/-- The magnitude bits nearest to a numeral. A numeral from 10^342 on is past every number, and one
below 2^-1076 is nearest to zero; both are settled without writing out their power of ten. -/
def ofDecimal (d : Decimal) : Nat :=
  if d.digits = 0 then 0
  else if 0 ≤ d.exponent then
    if 342 ≤ d.exponent then infiniteMagnitude
    else nearestMagnitude (d.digits * 10 ^ d.exponent.toNat * unitsPerOne) 1
  else if d.digits.log2 + 1077 ≤ 3 * d.exponent.natAbs then 0
  else nearestMagnitude (d.digits * unitsPerOne) (10 ^ d.exponent.natAbs)

/-- The power of ten after the digits: nothing, or `e`, an optional sign and digits. -/
def exponent? : List Char → Option Int
  | [] => some 0
  | mark :: rest =>
    if mark = 'e' ∨ mark = 'E' then
      match rest with
      | '-' :: ds => (natural? ds).map fun n => -(n : Int)
      | '+' :: ds => (natural? ds).map Int.ofNat
      | ds => (natural? ds).map Int.ofNat
    else none
where
  natural? (ds : List Char) : Option Nat :=
    if !ds.isEmpty && ds.all Char.isDigit then some (Decimal.digitsValue ds) else none

/-- Digits with at most one point among them, at least one digit, then an optional exponent. -/
def decimal? (text : List Char) : Option Decimal :=
  let (whole, rest) := text.span Char.isDigit
  let (fraction, rest) :=
    match rest with
    | '.' :: rest => rest.span Char.isDigit
    | rest => ([], rest)
  if whole.isEmpty && fraction.isEmpty then none
  else (exponent? rest).map fun e =>
    ⟨Decimal.digitsValue (whole ++ fraction), e - fraction.length⟩

/-- A number without a sign. The names of infinity and NaN are read in either case. -/
def unsigned? (text : List Char) : Option Binary64 :=
  match decimal? text with
  | some d => some (ofMagnitude false (ofDecimal d))
  | none =>
    let name := String.ofList (text.map Char.toLower)
    if name = "inf" ∨ name = "infinity" then some infinity
    else if name = "nan" then some nan
    else none

/-- The number a text stands for, with no blank allowed around it. -/
def ofText? (text : String) : Option Binary64 :=
  match text.toList with
  | '-' :: rest => (unsigned? rest).map neg
  | '+' :: rest => unsigned? rest
  | text => unsigned? text

end Binary64

end SpriteFormula
