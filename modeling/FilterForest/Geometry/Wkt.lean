import FilterForest.Geometry
import FilterForest.Number.Plain

/-!
# Well-known text

A geometry is written as the keyword of its kind and a body in parentheses, with a comma and a
space between the elements of a list.
-/

namespace FilterForest

namespace Text

def commaSeparated (parts : List (List Char)) : List Char := ", ".toList.intercalate parts

def parenthesized (body : List Char) : List Char := '(' :: body ++ [')']

end Text

open Text

def Coord.wkt (c : Coord) : List Char := c.x.plain ++ ' ' :: c.y.plain

namespace Geometry

def positionsWkt (positions : List Coord) : List Char := commaSeparated (positions.map Coord.wkt)

def ringsWkt (rings : List (List Coord)) : List Char :=
  commaSeparated (rings.map fun ring => parenthesized (positionsWkt ring))

def keyword : Geometry → List Char
  | point _ => "POINT".toList
  | lineString _ => "LINESTRING".toList
  | polygon _ => "POLYGON".toList
  | multiPoint _ => "MULTIPOINT".toList
  | multiLineString _ => "MULTILINESTRING".toList
  | multiPolygon _ => "MULTIPOLYGON".toList
  | collection _ => "GEOMETRYCOLLECTION".toList

mutual

/-- What stands in the parentheses after the keyword. -/
def wktBody : Geometry → List Char
  | point position => position.wkt
  | lineString positions | multiPoint positions => positionsWkt positions
  | polygon rings | multiLineString rings => ringsWkt rings
  | multiPolygon polygons =>
    commaSeparated (polygons.map fun polygon => parenthesized (ringsWkt polygon))
  | collection parts => commaSeparated (partsWkt parts)

def partsWkt : List Geometry → List (List Char)
  | [] => []
  | part :: rest => (part.keyword ++ parenthesized (wktBody part)) :: partsWkt rest

end

def wkt (g : Geometry) : List Char := g.keyword ++ parenthesized g.wktBody

theorem partsWkt_eq_map (parts : List Geometry) : partsWkt parts = parts.map wkt := by
  induction parts with
  | nil => rfl
  | cons part rest ih => rw [partsWkt, ih, List.map_cons, wkt]

end Geometry
end FilterForest
