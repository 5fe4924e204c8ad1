/-!
# Attribute types

The types an attribute can have, grouped by what a filter can ask of it. As with conditions, a
code that is not in the table stands for the unknown type.
-/

namespace FilterForest

inductive NumericType
  | integer
  | number
  | double
deriving DecidableEq

inductive TemporalType
  | date
  | timestamp
deriving DecidableEq

inductive GeometryType
  | point
  | lineString
  | polygon
  | multiPoint
  | multiLineString
  | multiPolygon
  | any
deriving DecidableEq

inductive AttributeType
  | string
  | boolean
  | numeric (type : NumericType)
  | temporal (type : TemporalType)
  | geometry (type : GeometryType)
  | unknown
deriving DecidableEq

namespace AttributeType

def isNumeric : AttributeType → Bool
  | numeric _ => true
  | _ => false

def isTemporal : AttributeType → Bool
  | temporal _ => true
  | _ => false

def isGeometry : AttributeType → Bool
  | geometry _ => true
  | _ => false

def code : AttributeType → String
  | string => "STRING"
  | boolean => "BOOLEAN"
  | numeric .integer => "INTEGER"
  | numeric .number => "NUMBER"
  | numeric .double => "DOUBLE"
  | temporal .date => "DATE"
  | temporal .timestamp => "TIMESTAMP"
  | geometry .point => "POINT"
  | geometry .lineString => "LINESTRING"
  | geometry .polygon => "POLYGON"
  | geometry .multiPoint => "MULTIPOINT"
  | geometry .multiLineString => "MULTILINESTRING"
  | geometry .multiPolygon => "MULTIPOLYGON"
  | geometry .any => "GEOMETRY"
  | unknown => "UNKNOWN"

/-- The types that have a code of their own. -/
def coded : List AttributeType :=
  [string, boolean] ++ [.integer, .number, .double].map numeric ++ [.date, .timestamp].map temporal
    ++ [.point, .lineString, .polygon, .multiPoint, .multiLineString, .multiPolygon, .any].map
      geometry

def ofCode (s : String) : AttributeType := (coded.find? (·.code = s)).getD unknown

@[simp] theorem ofCode_code (t : AttributeType) : ofCode t.code = t := by
  rcases t with _ | _ | t | t | t | _
  all_goals try cases t
  all_goals decide

end AttributeType
end FilterForest
