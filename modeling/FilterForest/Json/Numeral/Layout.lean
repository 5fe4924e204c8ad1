import FilterForest.Json.Numeral
import FilterForest.Number.Decimal.Shortest

/-!
# The numeral of a number

Integers are written as they are. Reals are written with their shortest digits and always show that
they are reals, by a point or by an exponent.
-/

namespace FilterForest
namespace Json
namespace Numeral

def ofInt (n : Int) : Numeral := ⟨n < 0, Decimal.digits n.natAbs, none, none⟩

/-- How reals are laid out: which exponents of the first digit are written with every place, and
which of two equally near decimals is taken. -/
structure Layout where
  leastPlain : Int
  greatestPlain : Int
  tie : Decimal.Tie

/-- Reals from `0.00001` up to `10 ^ 16` are written with every place, and a tie goes to the even
digit. -/
def layout : Layout := ⟨-5, 15, .even⟩

/-- A decimal with every place written, and one at least. -/
def positional (negative : Bool) (d : Decimal) : Numeral :=
  let places := match d.placeDigits with
    | [] => ['0']
    | places => places
  ⟨negative, d.wholeDigits, some places, none⟩

/-- A decimal with one digit before the point and an exponent. -/
def scientific (negative : Bool) (d : Decimal) : Numeral :=
  let digits := Decimal.digits d.coefficient
  let places := match digits.drop 1 with
    | [] => none
    | places => some places
  let exponent := d.leadingExponent
  ⟨negative, digits.take 1, places, some (exponent < 0, Decimal.digits exponent.natAbs)⟩

def ofDecimal (negative : Bool) (d : Decimal) : Numeral :=
  let exponent := d.leadingExponent
  if layout.leastPlain ≤ exponent ∧ exponent ≤ layout.greatestPlain then positional negative d
  else scientific negative d

/-- The numeral of a finite number. -/
def ofFinite (negative : Bool) (m : Magnitude) : Numeral :=
  ofDecimal negative (Decimal.shortest layout.tie m)

end Numeral
end Json
end FilterForest
