import FilterForest.Filter.Spatial
import FilterForest.Geometry.Circle
import FilterForest.Predicate
import FilterForest.Traced

/-!
# Compiling spatial filters

A spatial filter intersects every geometry column of a layer with every operand of the filter. The
geometries of the filter make one operand together, widened by the buffer; each circle makes one
of its own, a point widened by the radius and the buffer.
-/

namespace FilterForest

/-- What the text of a drawn geometry denotes. -/
inductive Drawing
  | base (geometry : Geometry)
  | circle (circle : Circle)

namespace Drawing

def base? : Drawing → Option Geometry
  | base geometry => some geometry
  | circle _ => none

def circle? : Drawing → Option Circle
  | base _ => none
  | circle c => some c

end Drawing

def GeometryEntry.drawing (entry : GeometryEntry) : Traced Drawing :=
  let text := entry.text.toList
  if Circle.isCircle text then
    .orDrop ((Circle.ofText? text).map .circle) .unparsableCircle
  else
    .orDrop ((Geometry.ofWkt? text).map .base) .unparsableGeometry

/-- One geometry for a list of them. -/
def Geometry.collect : List Geometry → Option Geometry
  | [] => none
  | [geometry] => some geometry
  | geometries => some (.collection geometries)

namespace SpatialFilter

variable (f : SpatialFilter)

/-- The buffer, unless it is zero. -/
def distance? : Option Binary64 := f.buffer.filter fun distance => !distance.same .zero

def baseOperand (geometry : Geometry) : SpatialOperand :=
  match f.distance? with
  | some distance => .buffered geometry distance
  | none => .plain geometry

def circleOperand (c : Circle) : SpatialOperand :=
  .buffered (.point c.center) (c.radius + f.distance?.getD .zero)

/-- What the columns are intersected with: the geometries first, then the circles. -/
def operands : Traced (List SpatialOperand) := do
  let drawings ← Traced.collect (f.geometries.map GeometryEntry.drawing)
  return ((Geometry.collect (drawings.filterMap Drawing.base?)).map f.baseOperand).toList ++
    (drawings.filterMap Drawing.circle?).map f.circleOperand

/-- Every column with every operand, operand by operand. -/
def intersections (columns : List String) (operands : List SpatialOperand) : List Predicate :=
  operands.flatMap fun operand => columns.map fun column => .atom column (.intersects operand)

def compile (layer : LayerId) : Traced Predicate :=
  match f.columnsFor layer with
  | [] => .dropped .noGeometryColumn
  | columns => do
    .ofOption (Predicate.combine .or (intersections columns (← f.operands)))

end SpatialFilter
end FilterForest
