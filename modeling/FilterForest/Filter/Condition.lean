import FilterForest.Filter.Comparison

/-!
# Conditions

What an attribute filter asks of its attribute. A condition is known by a code; a code that is not
in the table stands for the unknown condition, which no filter can satisfy.
-/

namespace FilterForest

inductive Condition
  | comparison (op : Comparison)
  | between
  | equals
  | like
  | startsWith
  | endsWith
  | on
  | after
  | before
  | isTrue
  | isFalse
  | isNull
  | uniqueValues
  | unknown
deriving DecidableEq

namespace Condition

def code : Condition → String
  | comparison op => op.symbol
  | between => "BETWEEN"
  | equals => "EQUALS"
  | like => "LIKE"
  | startsWith => "STARTS_WITH"
  | endsWith => "ENDS_WITH"
  | on => "ON"
  | after => "AFTER"
  | before => "BEFORE"
  | isTrue => "TRUE"
  | isFalse => "FALSE"
  | isNull => "NULL"
  | uniqueValues => "UNIQUE_VALUES"
  | unknown => "Unknown"

/-- The conditions that have a code of their own. -/
def coded : List Condition :=
  Comparison.all.map comparison ++
    [between, equals, like, startsWith, endsWith, on, after, before, isTrue, isFalse, isNull,
      uniqueValues]

/-- The condition with a code. The code `IN` is a second one for `UNIQUE_VALUES`. -/
def ofCode (s : String) : Condition :=
  if s = "IN" then uniqueValues else (coded.find? (·.code = s)).getD unknown

@[simp] theorem ofCode_code (c : Condition) : ofCode c.code = c := by
  cases c with
  | comparison op => cases op <;> decide
  | _ => decide

/-- The comparison a condition makes, if it makes one. Dates compare by the same operators as
numbers, so that one table of complements serves both. -/
def comparison? : Condition → Option Comparison
  | comparison op => some op
  | before => some .less
  | after => some .greater
  | _ => none

def comparisonFor? (c : Condition) (inverted : Bool) : Option Comparison :=
  c.comparison?.map fun op => if inverted then op.complement else op

end Condition
end FilterForest
