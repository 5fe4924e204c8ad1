/-!
# Connectives

The two ways of joining conditions.
-/

namespace FilterForest

inductive Connective
  | and
  | or
deriving DecidableEq

namespace Connective

def code : Connective → String
  | and => "AND"
  | or => "OR"

def ofCode? (s : String) : Option Connective :=
  if s = "AND" then some and else if s = "OR" then some or else none

@[simp] theorem ofCode?_code (c : Connective) : ofCode? c.code = some c := by
  cases c <;> decide

end Connective
end FilterForest
