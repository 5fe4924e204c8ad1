import FilterForest.Number.Binary64

/-!
# Geometries

The seven kinds of planar geometry. Only a collection holds other geometries.
-/

namespace FilterForest

structure Coord where
  x : Binary64
  y : Binary64
deriving DecidableEq

inductive Geometry
  | point (position : Coord)
  | lineString (positions : List Coord)
  | polygon (rings : List (List Coord))
  | multiPoint (positions : List Coord)
  | multiLineString (lines : List (List Coord))
  | multiPolygon (polygons : List (List (List Coord)))
  | collection (parts : List Geometry)

def sameList (same : α → α → Bool) : List α → List α → Bool
  | [], [] => true
  | a :: as, b :: bs => same a b && sameList same as bs
  | _, _ => false

def Coord.same (a b : Coord) : Bool := a.x.same b.x && a.y.same b.y

namespace Geometry

mutual

/-- Equality up to the values of the coordinates. -/
def same : Geometry → Geometry → Bool
  | point a, point b => a.same b
  | lineString as, lineString bs => sameList Coord.same as bs
  | polygon as, polygon bs => sameList (sameList Coord.same) as bs
  | multiPoint as, multiPoint bs => sameList Coord.same as bs
  | multiLineString as, multiLineString bs => sameList (sameList Coord.same) as bs
  | multiPolygon as, multiPolygon bs => sameList (sameList (sameList Coord.same)) as bs
  | collection as, collection bs => sameParts as bs
  | _, _ => false

def sameParts : List Geometry → List Geometry → Bool
  | [], [] => true
  | a :: as, b :: bs => same a b && sameParts as bs
  | _, _ => false

end

/-- The name of the kind of a geometry. -/
def name : Geometry → String
  | point _ => "Point"
  | lineString _ => "LineString"
  | polygon _ => "Polygon"
  | multiPoint _ => "MultiPoint"
  | multiLineString _ => "MultiLineString"
  | multiPolygon _ => "MultiPolygon"
  | collection _ => "GeometryCollection"

end Geometry
end FilterForest
