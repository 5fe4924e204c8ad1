import FilterForest.Geometry
import FilterForest.Json

/-!
# Geometries as JSON

The form of a geometry in JSON: an object with the name of the kind, and the coordinates nested as
the geometry nests them.
-/

namespace FilterForest

open Json (number)

def Coord.toJson (c : Coord) : Json := .array [number c.x, number c.y]

namespace Geometry

def positionsJson (positions : List Coord) : Json := .array (positions.map Coord.toJson)

def ringsJson (rings : List (List Coord)) : Json := .array (rings.map positionsJson)

def withCoordinates (name : String) (coordinates : Json) : Json :=
  .object [("type", .string name), ("coordinates", coordinates)]

mutual

def toJson : Geometry → Json
  | point position => withCoordinates "Point" position.toJson
  | lineString positions => withCoordinates "LineString" (positionsJson positions)
  | polygon rings => withCoordinates "Polygon" (ringsJson rings)
  | multiPoint positions => withCoordinates "MultiPoint" (positionsJson positions)
  | multiLineString lines => withCoordinates "MultiLineString" (ringsJson lines)
  | multiPolygon polygons => withCoordinates "MultiPolygon" (.array (polygons.map ringsJson))
  | collection parts =>
    .object [("type", .string "GeometryCollection"), ("geometries", .array (partsJson parts))]

def partsJson : List Geometry → List Json
  | [] => []
  | part :: rest => toJson part :: partsJson rest

end

end Geometry
end FilterForest
