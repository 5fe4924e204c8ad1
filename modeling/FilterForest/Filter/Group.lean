import FilterForest.Connective
import FilterForest.Filter.Attribute
import FilterForest.Filter.LayerSet

/-!
# Filter groups

Filters come in groups, and a group joins what its filters and its child groups ask. The groups
of a snapshot are a flat list; a group names its parent by id, and nothing keeps ids from being
repeated, missing or circular.
-/

namespace FilterForest

inductive FilterKind
  | property (filter : AttributeFilter)
  | spatial (filter : SpatialFilter)
deriving DecidableEq

structure Filter where
  id : String
  disabled : Bool
  kind : FilterKind
deriving DecidableEq

namespace Filter

/-- The filter that a filter was generated from as an alternative. -/
def generatedBy (f : Filter) : Option String :=
  match f.kind with
  | .property a => a.generatedBy
  | .spatial _ => none

def disable (f : Filter) : Filter := { f with disabled := true }

/-- Equality up to the value of a buffer. -/
def same (f g : Filter) : Bool :=
  f.id = g.id && f.disabled = g.disabled &&
    match f.kind, g.kind with
    | .property a, .property b => a = b
    | .spatial a, .spatial b => a.same b
    | _, _ => false

end Filter

structure FilterGroup where
  id : String
  layers : LayerSet
  filters : List Filter
  operator : Connective
  parent : Option String
deriving DecidableEq

namespace FilterGroup

def empty (id : String) (operator : Connective) : FilterGroup := ⟨id, .empty, [], operator, none⟩

variable (g : FilterGroup)

def addLayer (layer : LayerId) : FilterGroup := { g with layers := g.layers.insert layer }

def addFilter (filter : Filter) : FilterGroup := { g with filters := g.filters ++ [filter] }

def setParent (parent : String) : FilterGroup := { g with parent := some parent }

/-- Disables the filter that was added last. -/
def disableLast : FilterGroup :=
  { g with filters := g.filters.dropLast ++ g.filters.getLast?.toList.map Filter.disable }

def isRoot : Bool := g.parent.isNone

def appliesTo (layer : LayerId) : Bool := layer ∈ g.layers

theorem appliesTo_iff {layer : LayerId} : g.appliesTo layer = true ↔ layer ∈ g.layers := by
  simp [appliesTo]

/-- Equality up to the values of buffers. -/
def same (g h : FilterGroup) : Bool :=
  g.id = h.id && g.layers = h.layers && g.operator = h.operator && g.parent = h.parent &&
    g.filters.length = h.filters.length && (g.filters.zip h.filters).all fun (a, b) => a.same b

end FilterGroup

/-- The groups of a map, in the order of the user's list. -/
abbrev Snapshot := List FilterGroup

namespace Snapshot

variable (groups : Snapshot)

/-- Every layer that some group applies to. -/
def layers : LayerSet := .ofList (groups.flatMap fun g => g.layers.toList)

theorem mem_layers {layer : LayerId} :
    layer ∈ groups.layers ↔ ∃ g ∈ groups, layer ∈ g.layers := by
  simp only [layers, LayerSet.mem_ofList, List.mem_flatMap]
  exact Iff.rfl

/-- The groups whose parent is not in the snapshot. -/
def orphans : List FilterGroup :=
  groups.filter fun g => g.parent.any fun parent => !groups.any (·.id = parent)

end Snapshot
end FilterForest
