import FilterForest.Number.Binary64

/-!
# Decimals

A decimal is a natural coefficient and a power of ten. This file rounds decimals to binary64 and
lays them out as text with every place written.
-/

namespace FilterForest

/-- The number `coefficient * 10 ^ exponent`. -/
structure Decimal where
  coefficient : Nat
  exponent : Int
deriving DecidableEq

namespace Decimal

variable (d : Decimal)

/-- The magnitude nearest to a decimal, none beyond the range of the format. Exponents so large
that the answer does not depend on the digits are settled first, because their powers of ten
would not fit in memory: a positive coefficient times `10 ^ 401` is out of range, and a
coefficient of `b` bits times `10 ^ (-400 - b)` rounds to zero. -/
def magnitude? : Option Magnitude :=
  if d.coefficient = 0 then some .zero
  else if 400 < d.exponent then none
  else if d.exponent < -(400 + (d.coefficient.log2 + 1 : Nat) : Int) then some .zero
  else match d.exponent with
    | .ofNat e => Magnitude.nearest? (d.coefficient * tenTo e * Magnitude.unit) 1
    | .negSucc e => Magnitude.nearest? (d.coefficient * Magnitude.unit) (tenTo (e + 1))

/-- The binary64 number nearest to a decimal with a sign. -/
def toBinary64 (negative : Bool) : Binary64 :=
  match d.magnitude? with
  | some m => .finite negative m
  | none => .infinite negative

def digits (n : Nat) : List Char := Nat.toDigits 10 n

theorem digits_ne_nil (n : Nat) : digits n ≠ [] := Nat.toDigits_ne_nil

theorem isDigit_of_mem_digits {n : Nat} {c : Char} (h : c ∈ digits n) : c.isDigit = true :=
  Nat.isDigit_of_mem_toDigits (by decide) (by decide) h

theorem ofDigitChars_digits (n : Nat) : Nat.ofDigitChars 10 (digits n) 0 = n :=
  Nat.ofDigitChars_toDigits (by decide) (by decide)

def integer (n : Int) : List Char :=
  if n < 0 then '-' :: digits n.natAbs else digits n.natAbs

/-- The exponent of the first digit. -/
def leadingExponent : Int := d.exponent + ((digits d.coefficient).length - 1 : Nat)

/-- The digits of the coefficient with zeros in front, so that `places` digits can be split off and
one digit at least is left. -/
def paddedDigits (places : Nat) : List Char :=
  List.replicate (places + 1 - (digits d.coefficient).length) '0' ++ digits d.coefficient

def wholeDigits : List Char :=
  match d.exponent with
  | .ofNat e => digits d.coefficient ++ List.replicate e '0'
  | .negSucc e => (d.paddedDigits (e + 1)).take ((d.paddedDigits (e + 1)).length - (e + 1))

/-- The digits after the point when every place is written. -/
def placeDigits : List Char :=
  match d.exponent with
  | .ofNat _ => []
  | .negSucc e => (d.paddedDigits (e + 1)).drop ((d.paddedDigits (e + 1)).length - (e + 1))

/-- The text with every place written and no exponent. -/
def plain : List Char :=
  match d.placeDigits with
  | [] => d.wholeDigits
  | places => d.wholeDigits ++ '.' :: places

/-- The same number with no zero at the end of its coefficient, as long as `fuel` lasts. -/
def dropZeros : Nat → Decimal → Decimal
  | 0, d => d
  | fuel + 1, d =>
    if d.coefficient ≠ 0 ∧ d.coefficient % 10 = 0 then
      dropZeros fuel ⟨d.coefficient / 10, d.exponent + 1⟩
    else d

def normal : Decimal := dropZeros d.coefficient.log2 d

end Decimal
end FilterForest
