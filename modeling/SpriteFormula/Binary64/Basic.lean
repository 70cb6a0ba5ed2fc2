/-!
The 64-bit binary floating-point numbers, held as their bits. A finite number is a signed whole
number of units of 2^-1074, so comparing and rounding to integers are exact integer arithmetic.
-/

namespace SpriteFormula

/-- Powers of natural numbers are read the same whatever algebra is in scope. -/
@[default_instance high]
instance (priority := high) naturalPower : Pow Nat Nat := instPowNat

/-- A number of the binary64 format: sign bit, eleven exponent bits, 52 fraction bits. -/
structure Binary64 where
  bits : UInt64
  deriving DecidableEq, Repr

namespace Binary64

/-- The bits without the sign bit. Finite magnitudes are ordered as their bits are. -/
def magnitude (v : Binary64) : Nat := v.bits.toNat % 2 ^ 63

def isNegative (v : Binary64) : Bool := 2 ^ 63 ≤ v.bits.toNat

/-- The magnitude bits of infinity; larger ones are those of the NaNs. -/
def infiniteMagnitude : Nat := 0x7ff0000000000000

def ofMagnitude (negative : Bool) (magnitude : Nat) : Binary64 :=
  ⟨.ofNat (if negative then 2 ^ 63 + magnitude else magnitude)⟩

def zero : Binary64 := ⟨0⟩
def negativeZero : Binary64 := ⟨0x8000000000000000⟩
def one : Binary64 := ⟨0x3ff0000000000000⟩
def half : Binary64 := ⟨0x3fe0000000000000⟩
def infinity : Binary64 := ⟨0x7ff0000000000000⟩
def nan : Binary64 := ⟨0x7ff8000000000000⟩

def pi : Binary64 := ⟨0x400921fb54442d18⟩

def e : Binary64 := ⟨0x4005bf0a8b145769⟩

def isNaN (v : Binary64) : Bool := infiniteMagnitude < v.magnitude
def isInfinite (v : Binary64) : Bool := v.magnitude == infiniteMagnitude
def isFinite (v : Binary64) : Bool := v.magnitude < infiniteMagnitude
def isZero (v : Binary64) : Bool := v.magnitude == 0

/-- Whether the number is a NaN whose first fraction bit is clear. -/
def isSignaling (v : Binary64) : Bool := v.isNaN && v.magnitude < nan.magnitude

/-- The exponent field, zero for the numbers below the least normal one. -/
def exponentField (v : Binary64) : Nat := v.magnitude / 2 ^ 52

/-- The significand with its leading bit, as a whole number. -/
def significand (v : Binary64) : Nat :=
  if v.exponentField = 0 then v.magnitude else 2 ^ 52 + v.magnitude % 2 ^ 52

/-- The magnitude of a finite number in units of 2^-1074. -/
def units (v : Binary64) : Nat := v.significand * 2 ^ (v.exponentField - 1)

def signedUnits (v : Binary64) : Int := if v.isNegative then -v.units else v.units

/-- The units of 2^-1074 in one. -/
def unitsPerOne : Nat := 2 ^ 1074

/-- The same number with the other sign, NaNs included. -/
def neg (v : Binary64) : Binary64 := ofMagnitude (!v.isNegative) v.magnitude

/-- The place of a number in the numeric order; both zeros have place 0. -/
def rank (v : Binary64) : Int := if v.isNegative then -v.magnitude else v.magnitude

/-- Numeric order; a NaN is below nothing and above nothing. -/
def lt (a b : Binary64) : Bool := !a.isNaN && !b.isNaN && a.rank < b.rank

/-- Numeric equality; a NaN equals nothing and the zeros are equal. -/
def beq (a b : Binary64) : Bool := !a.isNaN && !b.isNaN && a.rank == b.rank

/-- The smaller number; a NaN gives way to the other one. -/
def min (a b : Binary64) : Binary64 :=
  if a.isNaN then b else if b.isNaN then a else if b.lt a then b else a

/-- The larger number; a NaN gives way to the other one. -/
def max (a b : Binary64) : Binary64 :=
  if a.isNaN then b else if b.isNaN then a else if a.lt b then b else a

/-- Whether a finite number is not whole. -/
def hasFraction (v : Binary64) : Bool := v.units % unitsPerOne != 0

/-- The nearest whole number of a finite number; a half goes away from zero. -/
def round (v : Binary64) : Int :=
  let whole := (2 * v.units + unitsPerOne) / (2 * unitsPerOne)
  if v.isNegative then -whole else whole

/-- Eight bytes, the most significant first. -/
def toBytes (v : Binary64) : List UInt8 :=
  (List.range 8).map fun k => .ofNat (v.bits.toNat / 256 ^ (7 - k) % 256)

def ofBytes (bytes : List UInt8) : Binary64 :=
  ⟨.ofNat (bytes.foldl (fun value byte => 256 * value + byte.toNat) 0)⟩

end Binary64

end SpriteFormula
