import FilterForest.Number.Decimal.Shortest

/-!
# Numbers in query text

Query text has no exponents. A whole number of safe size is written as an integer, any other
finite number with its shortest digits and zeros up to the point, and the rest by name.
-/

namespace FilterForest
namespace Binary64

/-- The shortest digits of a magnitude; of two equally near decimals the greater. -/
def plainDecimal (m : Magnitude) : Decimal := Decimal.shortest .upper m

def plain (x : Binary64) : List Char :=
  match x.safeInt? with
  | some n => Decimal.integer n
  | none =>
    match x with
    | finite negative m => (if negative then ['-'] else []) ++ (plainDecimal m).plain
    | infinite negative => if negative then "-inf".toList else "inf".toList
    | nan => "NaN".toList

end Binary64
end FilterForest
