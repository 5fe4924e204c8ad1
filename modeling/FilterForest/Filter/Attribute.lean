import FilterForest.Filter.AttributeType
import FilterForest.Filter.Condition

/-!
# Attribute filters

A filter on one attribute: a condition, the texts it is asked about, and whether the answer is to
be inverted.
-/

namespace FilterForest

structure AttributeFilter where
  property : String
  type : AttributeType
  condition : Condition
  inverted : Bool
  caseSensitive : Bool
  values : List String
  generatedBy : Option String
deriving DecidableEq

namespace AttributeFilter

def ofCondition (property : String) (type : AttributeType) (condition : Condition) :
    AttributeFilter where
  property := property
  type := type
  condition := condition
  inverted := false
  caseSensitive := false
  values := []
  generatedBy := none

variable (f : AttributeFilter)

def addValues (values : List String) : AttributeFilter := { f with values := f.values ++ values }

def invert : AttributeFilter := { f with inverted := true }

def matchCase : AttributeFilter := { f with caseSensitive := true }

/-- Marks a filter as an alternative to the filter with an id. -/
def generateFrom (id : String) : AttributeFilter := { f with generatedBy := some id }

/-- A numeric filter without values carries no constraint, unless its condition needs none. -/
def isEmptyNumeric : Bool :=
  f.type.isNumeric && f.values.isEmpty && f.condition ≠ .isNull && f.condition ≠ .uniqueValues

end AttributeFilter
end FilterForest
