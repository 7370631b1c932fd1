/-!
# Decimal numbers

A finite decimal number in normal form, the way it is written, and the way a numeral is read.
Every number has one normal form: its digits do not end in a zero.
-/

namespace ProtoCatalog

/-- The number `digits · 10 ^ exponent`, negated if `negative`.  There is a negative zero. -/
structure Decimal where
  negative : Bool
  digits : Nat
  exponent : Int
  normal : digits % 10 ≠ 0 ∨ digits = 0 ∧ exponent = 0
deriving DecidableEq, Repr

namespace Decimal

def zero (negative : Bool) : Decimal := ⟨negative, 0, 0, .inr ⟨rfl, rfl⟩⟩

instance : Inhabited Decimal := ⟨zero false⟩

/-- The normal form of `digits · 10 ^ exponent`: trailing zeros move into the exponent. -/
def ofDigits (negative : Bool) (digits : Nat) (exponent : Int) : Decimal :=
  if digits = 0 then zero negative
  else if h : digits % 10 = 0 then ofDigits negative (digits / 10) (exponent + 1)
  else ⟨negative, digits, exponent, .inl h⟩
termination_by digits
decreasing_by omega

theorem ofDigits_self (d : Decimal) : ofDigits d.negative d.digits d.exponent = d := by
  obtain ⟨negative, digits, exponent, normal⟩ := d
  rw [ofDigits]
  rcases normal with h | ⟨rfl, rfl⟩
  · have : digits ≠ 0 := by omega
    simp [this, h]
  · simp [zero]

/-! ## Writing -/

def natDigits (n : Nat) : List Char := Nat.toDigits 10 n

/-- The place of the leading digit: the exponent of the number in scientific notation. -/
def leading (d : Decimal) : Int := (natDigits d.digits).length - 1 + d.exponent

/-- How numbers are written: those whose leading digit has an exponent from `least` up to below
`limit` positionally, all others in scientific notation with so many digits of the exponent. -/
structure Layout where
  least : Int
  limit : Int
  exponentDigits : Nat
deriving DecidableEq, Repr

/-- Whether a number with a given exponent is written positionally. -/
def Layout.isPositional (layout : Layout) (e : Int) : Bool := layout.least ≤ e && e < layout.limit

/-- Positional notation, with at least one digit on either side of the point. -/
def positional (d : Decimal) : List Char :=
  let s := natDigits d.digits
  if 0 ≤ d.exponent then s ++ List.replicate d.exponent.toNat '0' ++ ['.', '0']
  else if 0 ≤ d.leading then
    let whole := (s.length + d.exponent).toNat
    s.take whole ++ '.' :: s.drop whole
  else '0' :: '.' :: List.replicate (-d.leading - 1).toNat '0' ++ s

/-- An exponent, with its sign and at least so many digits. -/
def exponentText (width : Nat) (e : Int) : List Char :=
  let s := natDigits e.natAbs
  (if e < 0 then '-' else '+') :: List.replicate (width - s.length) '0' ++ s

/-- Scientific notation: one digit before the point, and no point where no digit follows. -/
def scientific (width : Nat) (d : Decimal) : List Char :=
  let s := natDigits d.digits
  let fraction := s.drop 1
  s.take 1 ++ (if fraction.isEmpty then [] else '.' :: fraction) ++
    'e' :: exponentText width d.leading

/-- A number as text: scientific where the leading digit is far from the point. -/
def render (layout : Layout) (d : Decimal) : List Char :=
  (if d.negative then ['-'] else []) ++
    if layout.isPositional d.leading then d.positional else d.scientific layout.exponentDigits

/-! ## Reading -/

def natOfDigits (s : List Char) : Nat := s.foldl (fun n c => 10 * n + (c.toNat - '0'.toNat)) 0

end Decimal

/-- What a numeral denotes: an integer where it has neither point nor exponent. -/
inductive Numeral where
  | integer (n : Int)
  | decimal (d : Decimal)
deriving DecidableEq, Repr

namespace Numeral

open Decimal

def digits? (s : List Char) : Option (List Char × List Char) :=
  if (s.takeWhile Char.isDigit).isEmpty then none
  else some (s.takeWhile Char.isDigit, s.dropWhile Char.isDigit)

/-- The part before the point: digits that start with a zero only if they are just that. -/
def whole? (s : List Char) : Option (List Char × List Char) :=
  match digits? s with
  | some ('0' :: _ :: _, _) => none
  | r => r

/-- The digits after a point, if there is one. -/
def fraction? : List Char → Option (Option (List Char) × List Char)
  | '.' :: s => (digits? s).map fun (f, rest) => (some f, rest)
  | s => some (none, s)

def exponentDigits? (negative : Bool) (s : List Char) : Option (Option Int) :=
  match digits? s with
  | some (e, []) => some (some (if negative then -natOfDigits e else natOfDigits e))
  | _ => none

/-- An exponent that ends the text, if there is one. -/
def exponent? : List Char → Option (Option Int)
  | [] => some none
  | c :: s =>
    if c = 'e' || c = 'E' then
      match s with
      | '-' :: t => exponentDigits? true t
      | '+' :: t => exponentDigits? false t
      | t => exponentDigits? false t
    else none

/-- The numeral after a sign. -/
def unsigned? (negative : Bool) (s : List Char) : Option Numeral := do
  let (whole, s) ← whole? s
  let (fraction, s) ← fraction? s
  let exponent ← exponent? s
  match fraction, exponent with
  | none, none =>
    let n : Int := natOfDigits whole
    some (.integer (if negative then -n else n))
  | _, _ =>
    let f := fraction.getD []
    some (.decimal (ofDigits negative (natOfDigits (whole ++ f)) (exponent.getD 0 - f.length)))

/-- The numeral that a text is. -/
def read? : List Char → Option Numeral
  | '-' :: s => unsigned? true s
  | s => unsigned? false s

end Numeral
end ProtoCatalog
