import SpriteFormula.Binary64.Rounding

/-!
Arithmetic. Sum, difference, product, quotient and square root are the exact results rounded to
the nearest number; powers, cosine and sine are those of the machine's mathematical library.
-/

namespace SpriteFormula

namespace Binary64

def add (a b : Binary64) : Binary64 :=
  if a.isNaN || b.isNaN then nan
  else if a.isInfinite then
    if b.isInfinite && a.isNegative != b.isNegative then nan else a
  else if b.isInfinite then b
  else
    let sum := a.signedUnits + b.signedUnits
    if sum = 0 then (if a.isNegative && b.isNegative then negativeZero else zero)
    else nearest (sum < 0) sum.natAbs 1

def sub (a b : Binary64) : Binary64 := a.add b.neg

def mul (a b : Binary64) : Binary64 :=
  let negative := a.isNegative != b.isNegative
  if a.isNaN || b.isNaN then nan
  else if a.isInfinite || b.isInfinite then
    if a.isZero || b.isZero then nan else ofMagnitude negative infiniteMagnitude
  else nearest negative (a.units * b.units) unitsPerOne

def div (a b : Binary64) : Binary64 :=
  let negative := a.isNegative != b.isNegative
  if a.isNaN || b.isNaN then nan
  else if a.isInfinite then
    if b.isInfinite then nan else ofMagnitude negative infiniteMagnitude
  else if b.isInfinite then ofMagnitude negative 0
  else if b.isZero then
    if a.isZero then nan else ofMagnitude negative infiniteMagnitude
  else nearest negative (a.units * unitsPerOne) b.units

/-- The largest whole number whose square is no larger, found two bits at a time. -/
def rootFloor (n : Nat) : Nat :=
  if n = 0 then 0
  else
    let r := 2 * rootFloor (n / 4)
    if (r + 1) * (r + 1) ≤ n then r + 1 else r

/-- The root of the units has hundreds of bits, so a half added to its floor whenever it is not
whole cannot change the number it rounds to. -/
def sqrt (v : Binary64) : Binary64 :=
  if v.isZero then v
  else if v.isNaN || v.isNegative then nan
  else if v.isInfinite then v
  else
    let square := v.units * unitsPerOne
    let root := rootFloor square
    nearest false (2 * root + if root * root = square then 0 else 1) 2

/-- The value of a function that the machine's library computes. -/
def viaMachine (f : Float → Float) (v : Binary64) : Binary64 := ⟨(f (.ofBits v.bits)).toBits⟩

def cos (v : Binary64) : Binary64 := v.viaMachine Float.cos
def sin (v : Binary64) : Binary64 := v.viaMachine Float.sin

/-- A NaN to the power of zero is one, and so is one to the power of a NaN, unless the NaN is a
signaling one. -/
def pow (a b : Binary64) : Binary64 :=
  if a.isSignaling || b.isSignaling then nan
  else ⟨((Float.ofBits a.bits).pow (.ofBits b.bits)).toBits⟩

end Binary64

end SpriteFormula
