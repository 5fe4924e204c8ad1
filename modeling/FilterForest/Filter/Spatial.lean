import FilterForest.Number.Binary64

/-!
# Spatial filters

A filter on the geometry columns of a layer: the geometries to intersect with, as texts, and a
distance to widen them by. One filter can serve several layers, each with columns of its own.
-/

namespace FilterForest

abbrev LayerId := Int64

structure GeometryColumns where
  layer : LayerId
  columns : List String
deriving DecidableEq

/-- A drawn geometry as text: well-known text, or a circle. -/
structure GeometryEntry where
  id : String
  text : String
deriving DecidableEq

structure SpatialFilter where
  columns : List GeometryColumns
  geometries : List GeometryEntry
  buffer : Option Binary64
deriving DecidableEq

namespace SpatialFilter

def empty : SpatialFilter := ⟨[], [], none⟩

variable (f : SpatialFilter)

def addGeometry (id text : String) : SpatialFilter :=
  { f with geometries := f.geometries ++ [⟨id, text⟩] }

def addColumns (layer : LayerId) (columns : List String) : SpatialFilter :=
  { f with columns := f.columns ++ [⟨layer, columns⟩] }

def setBuffer (distance : Binary64) : SpatialFilter := { f with buffer := some distance }

def columnsFor (layer : LayerId) : List String :=
  (f.columns.filter (·.layer = layer)).flatMap GeometryColumns.columns

/-- Equality up to the value of the buffer: a buffer that is NaN equals nothing, and the two zeros
are equal. -/
def same (f g : SpatialFilter) : Bool :=
  f.columns = g.columns && f.geometries = g.geometries &&
    match f.buffer, g.buffer with
    | none, none => true
    | some x, some y => x.same y
    | _, _ => false

end SpatialFilter
end FilterForest
