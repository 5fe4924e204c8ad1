import FilterForest.Proofs.Predicate.Truth
import Mathlib.Data.Bool.Basic
import Mathlib.Order.Lattice

/-!
# Tests of a row

A row gives every attribute a value. The values of numeric and temporal attributes are places in a
total order in which the literals have places too, and comparisons and ranges are read in it; a
boolean attribute is true or false. How a row answers the other tests is left open, so that what
holds of all rows here holds however patterns, lists and geometries are matched.
-/
namespace FilterForest

namespace Comparison

variable {α : Type*} [LinearOrder α]

def holds : Comparison → α → α → Bool
  | equal, a, b => a = b
  | notEqual, a, b => a ≠ b
  | less, a, b => a < b
  | lessOrEqual, a, b => a ≤ b
  | greater, a, b => b < a
  | greaterOrEqual, a, b => b ≤ a

@[simp] theorem holds_complement (op : Comparison) (a b : α) :
    op.complement.holds a b = !op.holds a b := by
  rw [Bool.eq_iff_iff, Bool.not_eq_true']
  cases op <;> simp [complement, holds]

end Comparison

/-- The answers of one row, property by property. -/
structure Row (α : Type*) where
  place : String → α
  flag : String → Bool
  like : String → (pattern : String) → (ignoreCase : Bool) → Bool
  oneOf : String → List Literal → Bool
  isNull : String → Bool
  intersects : String → SpatialOperand → Bool

namespace Row

variable {α : Type*} [LinearOrder α]

/-- Whether a test of a property is true of a row, given the places of the literals. -/
def truth (scale : Literal → α) (row : Row α) (property : String) : Test → Bool
  | .compare op (.bool value) => op.holds (row.flag property) value
  | .compare op value => op.holds (row.place property) (scale value)
  | .between lower upper => scale lower ≤ row.place property ∧ row.place property ≤ scale upper
  | .like pattern ignoreCase => row.like property pattern ignoreCase
  | .oneOf values => row.oneOf property values
  | .isNull => row.isNull property
  | .intersects operand => row.intersects property operand

end Row

namespace Predicate

/-- The opposite of a test, in the form that an inverted filter gives it: a boolean attribute is
compared with the other literal, any other value by the complement, and the rest is negated. -/
def opposite : Predicate → Predicate
  | atom property (.compare .equal (.bool value)) => atom property (.compare .equal (.bool !value))
  | atom property (.compare op value) => atom property (.compare op.complement value)
  | p => not p

theorem holds_opposite {α : Type*} [LinearOrder α] (scale : Literal → α) (row : Row α)
    (p : Predicate) : p.opposite.holds (row.truth scale) = !p.holds (row.truth scale) := by
  fun_cases opposite p with
  | case1 property value =>
    simp only [holds, Row.truth, Comparison.holds]
    cases row.flag property <;> cases value <;> rfl
  | case2 property op value hflag =>
    cases value <;> simp only [holds, Row.truth, Comparison.holds_complement]
  | case3 p hcompare => rfl

end Predicate
end FilterForest
