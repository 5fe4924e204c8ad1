import FilterForest.Geometry.GeoJson
import FilterForest.Predicate

/-!
# CQL2-JSON

The same predicates as JSON values: an object with the name of an operation and its arguments.
-/

namespace FilterForest

namespace Json

def operation (name : String) (args : List Json) : Json :=
  .object [("op", .string name), ("args", .array args)]

def property (name : String) : Json := .object [("property", .string name)]

end Json

def Literal.toJson : Literal → Json
  | text value => .string value
  | number value => Json.number value
  | bool value => .bool value

def SpatialOperand.toJson : SpatialOperand → Json
  | plain geometry => geometry.toJson
  | buffered geometry distance =>
    .object [("function", .string "buffer"),
      ("args", .array [geometry.toJson, Json.number distance])]

def Test.toJson (property : String) : Test → Json
  | compare op value => .operation op.symbol [.property property, value.toJson]
  | between lower upper => .operation "between" [.property property, lower.toJson, upper.toJson]
  | like pattern ignoreCase =>
    .operation "like" [.property property, .string pattern, .bool ignoreCase]
  | oneOf values => .operation "in" [.property property, .array (values.map Literal.toJson)]
  | isNull => .operation "isNull" [.property property]
  | intersects operand => .operation "s_intersects" [.property property, operand.toJson]

namespace Predicate

def operationName : Connective → String
  | .and => "and"
  | .or => "or"

mutual

def toJson : Predicate → Json
  | junction operator args => .operation (operationName operator) (jsonOfArgs args)
  | not arg => .operation "not" [toJson arg]
  | atom property test => test.toJson property

def jsonOfArgs : List Predicate → List Json
  | [] => []
  | arg :: rest => toJson arg :: jsonOfArgs rest

end

end Predicate
end FilterForest
