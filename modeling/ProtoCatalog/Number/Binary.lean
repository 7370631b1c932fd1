import ProtoCatalog.Number.Decimal
import ProtoCatalog.Number.Power

/-!
# Binary floating-point numbers

The 32-bit and 64-bit interchange formats, as patterns of bits.  A pattern denotes an exact
number `mantissa · 2 ^ exponent`, an infinity, or no number; a ratio is rounded to the nearest
pattern, halves to the even one.
-/

namespace ProtoCatalog

/-- Halves go to the even neighbour. -/
def roundRatio (num den : Nat) : Nat :=
  let whole := num / den
  let rest := num % den
  if 2 * rest < den then whole
  else if den < 2 * rest then whole + 1
  else whole + whole % 2

/-- A layout of sign, exponent field and fraction. -/
structure FloatFormat where
  fractionBits : Nat
  exponentBits : Nat
deriving DecidableEq, Repr

/-- What a pattern of bits denotes. -/
inductive FloatValue where
  | nan
  | infinite (negative : Bool)
  | finite (negative : Bool) (mantissa : Nat) (exponent : Int)
deriving DecidableEq, Repr

namespace FloatFormat

def single : FloatFormat := ⟨23, 8⟩

def double : FloatFormat := ⟨52, 11⟩

variable (f : FloatFormat)

/-- The exponent field of infinities and of patterns that denote no number. -/
def top : Nat := twoTo f.exponentBits - 1

/-- The exponent of the smallest positive number. -/
def least : Int := 2 - twoTo (f.exponentBits - 1) - f.fractionBits

/-- The weight of the sign bit. -/
def signWeight : Nat := twoTo (f.fractionBits + f.exponentBits)

def infinity : Nat := f.top * twoTo f.fractionBits

def nan : Nat := f.infinity + twoTo (f.fractionBits - 1)

def value (bits : Nat) : FloatValue :=
  let negative := bits / f.signWeight % 2 == 1
  let field := bits / twoTo f.fractionBits % twoTo f.exponentBits
  let fraction := bits % twoTo f.fractionBits
  if field = f.top then if fraction = 0 then .infinite negative else .nan
  else if field = 0 then .finite negative fraction f.least
  else .finite negative (twoTo f.fractionBits + fraction) (f.least + (field - 1))

/-- The ratio `num / den` divided by a power of two. -/
def scale (num den : Nat) (exponent : Int) : Nat × Nat :=
  if 0 ≤ exponent then (num, den * twoTo exponent.toNat) else (num * twoTo (-exponent).toNat, den)

/-- The power of two just below a positive ratio, or at it. -/
def binaryOrder (num den : Nat) : Int :=
  let guess : Int := num.log2 - den.log2
  let (a, b) := scale num den guess
  if a < b then guess - 1 else guess

/-- The bits without sign of the number nearest to a ratio.  A mantissa that rounds up to the
next power of two carries into the exponent field, and from the last field into infinity. -/
def magnitude (num den : Nat) : Nat :=
  if num = 0 then 0
  else
    -- Near zero the exponent stays at its least, and the mantissa has fewer bits.
    let exponent := max f.least (binaryOrder num den - f.fractionBits)
    let (a, b) := scale num den exponent
    min ((exponent - f.least).toNat * twoTo f.fractionBits + roundRatio a b) f.infinity

def signed (negative : Bool) (magnitude : Nat) : Nat :=
  (if negative then f.signWeight else 0) + magnitude

/-- A positive decimal number as a ratio. -/
def decimalRatio (digits : Nat) (exponent : Int) : Nat × Nat :=
  if 0 ≤ exponent then (digits * tenTo exponent.toNat, 1) else (digits, tenTo (-exponent).toNat)

/-- The magnitude nearest to `digits · 10 ^ exponent`.  No format here reaches beyond
`10 ^ ± 400`, so numbers out there are not computed. -/
def decimalMagnitude (digits : Nat) (exponent : Int) : Nat :=
  let leading := (Decimal.natDigits digits).length + exponent
  if digits = 0 || leading < -400 then 0
  else if 400 < leading then f.infinity
  else
    let (num, den) := decimalRatio digits exponent
    f.magnitude num den

def ofDecimal (d : Decimal) : Nat := f.signed d.negative (f.decimalMagnitude d.digits d.exponent)

end FloatFormat

structure Single where
  bits : UInt32
deriving DecidableEq, Repr

structure Double where
  bits : UInt64
deriving DecidableEq, Repr

namespace Double

def value (x : Double) : FloatValue := FloatFormat.double.value x.bits.toNat

def ofDecimal (d : Decimal) : Double := ⟨(FloatFormat.double.ofDecimal d).toUInt64⟩

def infinity (negative : Bool) : Double :=
  ⟨(FloatFormat.double.signed negative FloatFormat.double.infinity).toUInt64⟩

def nan : Double := ⟨FloatFormat.double.nan.toUInt64⟩

end Double

namespace Single

def value (x : Single) : FloatValue := FloatFormat.single.value x.bits.toNat

/-- The number nearest to a 64-bit one; beyond the range it is an infinity. -/
def ofDouble (x : Double) : Single :=
  let f := FloatFormat.single
  match x.value with
  | .nan => ⟨f.nan.toUInt32⟩
  | .infinite negative => ⟨(f.signed negative f.infinity).toUInt32⟩
  | .finite negative mantissa exponent =>
    let (num, den) := FloatFormat.scale mantissa 1 (-exponent)
    ⟨(f.signed negative (f.magnitude num den)).toUInt32⟩

end Single
end ProtoCatalog
