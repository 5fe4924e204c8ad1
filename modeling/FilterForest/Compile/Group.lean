import FilterForest.Compile.Attribute
import FilterForest.Compile.Spatial
import FilterForest.Filter.Group

/-!
# Compiling the filters of a group

A group asks for one condition for each of its primary filters: that filter, or any of the filters
that were generated from it. Filters that are disabled or empty are passed over, and so are
generated filters whose primary is not there.
-/

namespace FilterForest

namespace Filter

/-- Compiles a filter for a layer, disabled or not. -/
def compile (layer : LayerId) (f : Filter) : Traced Predicate :=
  match f.kind with
  | .property a => a.compile
  | .spatial s => s.compile layer

/-- Why a filter is passed over, if it is. -/
def skip? (f : Filter) : Option Event :=
  if f.disabled then some .disabledFilter
  else match f.kind with
    | .property a => if a.isEmptyNumeric then some .emptyNumericFilter else none
    | .spatial _ => none

def isActive (f : Filter) : Bool := f.skip?.isNone

end Filter

namespace FilterGroup

variable (layer : LayerId) (g : FilterGroup)

def active : List Filter := g.filters.filter Filter.isActive

/-- The active filters that were not generated from another. -/
def primaries : List Filter := g.active.filter fun f => f.generatedBy.isNone

/-- The active filters that were generated from the filter with an id. -/
def generatedFrom (id : String) : List Filter :=
  g.active.filter fun f => f.generatedBy = some id

/-- A filter or one of its alternatives. -/
def compilePrimary (primary : Filter) : Traced Predicate := do
  let alternatives ←
    Traced.collect ((primary :: g.generatedFrom primary.id).map (Filter.compile layer))
  .ofOption (Predicate.combine .or alternatives)

/-- The conditions of a group, its child groups apart. -/
def terms : Traced (List Predicate) := do
  .log (g.filters.filterMap Filter.skip?)
  .collect (g.primaries.map (g.compilePrimary layer))

end FilterGroup
end FilterForest
