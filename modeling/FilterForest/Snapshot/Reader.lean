import FilterForest.Filter.Group
import FilterForest.Json.Reader
import FilterForest.Json.Record

/-!
# Reading snapshots

Groups are read as records, and so are the parts of filters. A filter itself is an object, and its
kind decides which of its members are fields; until the kind is known all members have to be kept,
so that each of them has to denote a value, and none may be nested too deep.
-/

namespace FilterForest

open Json

/-- The most arrays and objects that can stand around a value inside a filter. -/
def maxNesting : Nat := 127

namespace AttributeFilter

def fieldNames : List String :=
  ["attribute", "attributeType", "condition", "invertCondition", "caseSensitive", "value",
    "generatedByFilterId"]

def ofFields? (place : Place) : List (Option Json) → Option AttributeFilter
  | [property, type, condition, inverted, caseSensitive, values, generatedBy] => do
    return {
      property := ← required string? property
      type := .ofCode (← required (code? place) type)
      condition := .ofCode (← required (code? place) condition)
      inverted := ← withDefault false bool? inverted
      caseSensitive := ← withDefault false bool? caseSensitive
      values := ← withDefault [] (list? string?) values
      generatedBy := ← optional string? generatedBy }
  | _ => none

def ofJson? (value : Json) : Option AttributeFilter :=
  (fields? fieldNames value).bind (ofFields? .direct)

end AttributeFilter

def GeometryColumns.ofJson? (value : Json) : Option GeometryColumns := do
  match ← fields? ["layerId", "column"] value with
  | [layer, columns] =>
    return ⟨← required int64? layer, ← withDefault [] (list? string?) columns⟩
  | _ => none

def GeometryEntry.ofJson? (value : Json) : Option GeometryEntry := do
  match ← fields? ["id", "geometry"] value with
  | [id, text] => return ⟨← required string? id, ← required string? text⟩
  | _ => none

namespace SpatialFilter

def fieldNames : List String := ["geometryColumns", "geometries", "buffer"]

def ofFields? : List (Option Json) → Option SpatialFilter
  | [columns, geometries, buffer] => do
    return {
      columns := ← withDefault [] (list? GeometryColumns.ofJson?) columns
      geometries := ← withDefault [] (list? GeometryEntry.ofJson?) geometries
      buffer := ← optional binary64? buffer }
  | _ => none

def ofJson? (value : Json) : Option SpatialFilter := (fields? fieldNames value).bind ofFields?

end SpatialFilter

namespace Filter

/-- The kinds of filter, by name or by number. -/
inductive Tag
  | property
  | spatial
deriving DecidableEq

def Tag.ofJson? : Json → Option Tag
  | .string "ATTRIBUTE" | .integer 0 => some property
  | .string "SPATIAL" | .integer 1 => some spatial
  | _ => none

/-- Whether the members of a filter inside `outer` arrays and objects can be kept. -/
def canKeep (outer : Nat) (filter : Json) : Bool :=
  filter.isReadable && outer + filter.depth ≤ maxNesting

def ofJson? (outer : Nat) (value : Json) : Option Filter := do
  match ← objectFields? ["id", "disabled", "type"] value with
  | [id, disabled, tag] =>
    if canKeep outer value then
      let id ← required string? id
      let disabled ← withDefault false bool? disabled
      match ← required Tag.ofJson? tag with
      | .property =>
        let fields ← objectFields? AttributeFilter.fieldNames value
        return ⟨id, disabled, .property (← AttributeFilter.ofFields? .inFilter fields)⟩
      | .spatial =>
        let fields ← objectFields? SpatialFilter.fieldNames value
        return ⟨id, disabled, .spatial (← SpatialFilter.ofFields? fields)⟩
    else none
  | _ => none

end Filter

namespace FilterGroup

/-- The arrays and objects around a filter in a snapshot: the list of groups, a group, and its list
of filters. -/
def filterNesting : Nat := 3

def fieldNames : List String := ["id", "layerIds", "filters", "operator", "parentGroup"]

def ofJson? (value : Json) : Option FilterGroup := do
  match ← fields? fieldNames value with
  | [id, layers, filters, operator, parent] =>
    return {
      id := ← required string? id
      layers := .ofList (← withDefault [] (list? int64?) layers)
      filters := ← withDefault [] (list? (Filter.ofJson? filterNesting)) filters
      operator := ← Connective.ofCode? (← required (code? .direct) operator)
      parent := ← optional string? parent }
  | _ => none

end FilterGroup

namespace Snapshot

def ofJson? (value : Json) : Option Snapshot := list? FilterGroup.ofJson? value

def ofText? (s : List Char) : Option Snapshot := (Json.ofText? s).bind ofJson?

end Snapshot
end FilterForest
