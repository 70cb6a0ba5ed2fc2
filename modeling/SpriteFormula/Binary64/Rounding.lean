import SpriteFormula.Binary64.Basic

/-!
Rounding an exact quotient to the nearest binary64 number, a tie going to the even one. The exact
operations and the decimal reader are all given by it.
-/

namespace SpriteFormula

namespace Binary64

/-- The whole number nearest to a quotient; a tie goes to the even one. -/
def nearestWhole (numerator denominator : Nat) : Nat :=
  let floor := numerator / denominator
  let rest := 2 * (numerator % denominator)
  if rest < denominator ∨ (rest = denominator ∧ floor % 2 = 0) then floor else floor + 1

/-- How many times the unit has to be doubled before the quotient has no more than 53 bits. -/
def doublings (numerator denominator : Nat) : Nat := (numerator / denominator).log2 - 52

/-- The magnitude bits nearest to a quotient in units of 2^-1074. A significand that is rounded up
to 2^53 carries into the exponent, and past the largest number lies infinity. -/
def nearestMagnitude (numerator denominator : Nat) : Nat :=
  let q := doublings numerator denominator
  Nat.min infiniteMagnitude (q * 2 ^ 52 + nearestWhole numerator (denominator * 2 ^ q))

/-- The number nearest to a signed quotient in units of 2^-1074. -/
def nearest (negative : Bool) (numerator denominator : Nat) : Binary64 :=
  ofMagnitude negative (nearestMagnitude numerator denominator)

def ofNat (n : Nat) : Binary64 := nearest false (n * unitsPerOne) 1

end Binary64

end SpriteFormula
