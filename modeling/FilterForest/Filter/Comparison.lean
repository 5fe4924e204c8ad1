/-!
# Comparisons

The six comparisons of query languages and their complements: of any two values in a total order,
exactly one of a comparison and its complement holds.
-/

namespace FilterForest

inductive Comparison
  | equal
  | notEqual
  | less
  | lessOrEqual
  | greater
  | greaterOrEqual
deriving DecidableEq

namespace Comparison

def complement : Comparison → Comparison
  | equal => notEqual
  | notEqual => equal
  | less => greaterOrEqual
  | greaterOrEqual => less
  | greater => lessOrEqual
  | lessOrEqual => greater

@[simp] theorem complement_complement (op : Comparison) : op.complement.complement = op := by
  cases op <;> rfl

/-- The sign for a comparison, the same in both query languages. -/
def symbol : Comparison → String
  | equal => "="
  | notEqual => "<>"
  | less => "<"
  | lessOrEqual => "<="
  | greater => ">"
  | greaterOrEqual => ">="

/-- Every comparison once, each followed by its complement where that is new. -/
def all : List Comparison := [equal, notEqual, less, greaterOrEqual, greater, lessOrEqual]

def ofSymbol? (s : String) : Option Comparison := all.find? (·.symbol = s)

@[simp] theorem ofSymbol?_symbol (op : Comparison) : ofSymbol? op.symbol = some op := by
  cases op <;> decide

/-- Each comparison with its complement. -/
def complements : List (Comparison × Comparison) := all.map fun op => (op, op.complement)

end Comparison
end FilterForest
