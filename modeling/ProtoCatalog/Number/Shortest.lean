import ProtoCatalog.Number.Binary

/-!
# Shortest decimal forms

A binary number is written with the fewest decimal digits that read back as the same number.
The digits are searched on ever finer decimal grids, in exact arithmetic.
-/

namespace ProtoCatalog
namespace FloatFormat

variable (f : FloatFormat)

/-- The power of ten just below a positive ratio, or at it. -/
def decimalOrder (num den : Nat) : Int :=
  let guess : Int := (Decimal.natDigits num).length - (Decimal.natDigits den).length
  let (a, b) := decimalRatio den guess
  if num * b < a then guess - 1 else guess

/-- The ratio `num / den` in units of `10 ^ exponent`. -/
def inUnits (num den : Nat) (exponent : Int) : Nat × Nat :=
  if 0 ≤ exponent then (num, den * tenTo exponent.toNat) else (num * tenTo (-exponent).toNat, den)

/-- On the grid of `10 ^ exponent`, the neighbour of the ratio `num / den` that reads back as
`target`: of two the nearer, and of two at one distance the even one. -/
def onGrid? (num den target : Nat) (exponent : Int) : Option Nat :=
  let (a, b) := inUnits num den exponent
  let below := a / b
  let readsBack n := f.decimalMagnitude n exponent == target
  match readsBack below, readsBack (below + 1) with
  | true, true => some (roundRatio a b)
  | true, false => some below
  | false, true => some (below + 1)
  | false, false => none

/-- The number of digits that always reads back. -/
def enoughDigits : Nat := 17

/-- The shortest decimal form of the positive number `num / den` with the given bits. -/
def shortest (negative : Bool) (num den bits : Nat) : Decimal :=
  let order := decimalOrder num den
  let grids := (List.range enoughDigits).map fun (n : Nat) => order - n
  let finest := order - (enoughDigits - 1)
  match grids.findSome? fun e => (f.onGrid? num den bits e).map fun n => (n, e) with
  | some (n, e) => Decimal.ofDigits negative n e
  -- The finest grid always has a point that reads back.
  | none =>
    let (a, b) := inUnits num den finest
    Decimal.ofDigits negative (roundRatio a b) finest

end FloatFormat

/-- The shortest decimal that reads back as a number; none where there is no finite number. -/
def Double.shortest? (x : Double) : Option Decimal :=
  match x.value with
  | .finite negative mantissa exponent =>
    if mantissa = 0 then some (.zero negative)
    else
      let f := FloatFormat.double
      let (num, den) := FloatFormat.scale mantissa 1 (-exponent)
      some (f.shortest negative num den (x.bits.toNat % f.signWeight))
  | _ => none

namespace Single

def rounded (negative : Bool) (num den digits : Nat) : Decimal :=
  let exponent := FloatFormat.decimalOrder num den - (digits - 1 : Nat)
  let (a, b) := FloatFormat.inUnits num den exponent
  Decimal.ofDigits negative (roundRatio a b) exponent

/-- The numbers of digits that are tried on a 32-bit number, and the one that always reads
back. -/
def triedDigits : List Nat := [6, 7, 8]

/-- The number of digits with which every 32-bit number reads back. -/
def enoughDigits : Nat := 9

/-- A number rounded to the fewest digits from six up that reads back; none where there is no
finite number. -/
def brief? (x : Single) : Option Decimal :=
  match x.value with
  | .finite negative mantissa exponent =>
    if mantissa = 0 then some (.zero negative)
    else
      let (num, den) := FloatFormat.scale mantissa 1 (-exponent)
      let candidates := triedDigits.map (rounded negative num den)
      some ((candidates.find? fun d => ofDouble (.ofDecimal d) = x).getD
        (rounded negative num den enoughDigits))
  | _ => none

end Single
end ProtoCatalog
