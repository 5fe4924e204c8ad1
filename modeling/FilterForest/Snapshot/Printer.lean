import FilterForest.Filter.Group
import FilterForest.Json.Printer

/-!
# Writing snapshots

Groups and filters as objects with their fields in order. A field without a value is left out.
-/

namespace FilterForest

namespace Json

def strings (values : List String) : Json := .array (values.map .string)

def optionalMember (name : String) (value : Option Json) : List (String × Json) :=
  value.toList.map fun value => (name, value)

end Json

namespace AttributeFilter

variable (f : AttributeFilter)

def members : List (String × Json) :=
  [("attribute", .string f.property), ("attributeType", .string f.type.code),
    ("condition", .string f.condition.code), ("invertCondition", .bool f.inverted),
    ("caseSensitive", .bool f.caseSensitive), ("value", .strings f.values)] ++
  Json.optionalMember "generatedByFilterId" (f.generatedBy.map .string)

def toJson : Json := .object f.members

end AttributeFilter

def GeometryColumns.toJson (c : GeometryColumns) : Json :=
  .object [("layerId", .integer c.layer.toInt), ("column", .strings c.columns)]

def GeometryEntry.toJson (e : GeometryEntry) : Json :=
  .object [("id", .string e.id), ("geometry", .string e.text)]

namespace SpatialFilter

variable (f : SpatialFilter)

def members : List (String × Json) :=
  [("geometryColumns", .array (f.columns.map GeometryColumns.toJson)),
    ("geometries", .array (f.geometries.map GeometryEntry.toJson))] ++
  Json.optionalMember "buffer" (f.buffer.map Json.ofBinary64)

def toJson : Json := .object f.members

end SpatialFilter

namespace FilterKind

def tag : FilterKind → String
  | property _ => "ATTRIBUTE"
  | spatial _ => "SPATIAL"

def members : FilterKind → List (String × Json)
  | property f => f.members
  | spatial f => f.members

end FilterKind

def Filter.toJson (f : Filter) : Json :=
  .object ([("id", .string f.id), ("disabled", .bool f.disabled), ("type", .string f.kind.tag)] ++
    f.kind.members)

def FilterGroup.toJson (g : FilterGroup) : Json :=
  .object ([("id", .string g.id), ("layerIds", .array (g.layers.toList.map (.integer ·.toInt))),
    ("filters", .array (g.filters.map Filter.toJson)), ("operator", .string g.operator.code)] ++
    Json.optionalMember "parentGroup" (g.parent.map .string))

namespace Snapshot

def toJson (groups : Snapshot) : Json := .array (groups.map FilterGroup.toJson)

def text (groups : Snapshot) : List Char := groups.toJson.compact

end Snapshot
end FilterForest
