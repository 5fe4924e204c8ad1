/-!
# Events

What the library reports about its work beside its results. An event has a level and a fixed
message.
-/

namespace FilterForest

inductive Level
  | trace
  | debug
  | warn
deriving DecidableEq

def Level.name : Level → String
  | trace => "TRACE"
  | debug => "DEBUG"
  | warn => "WARN"

inductive Event
  | geometryAttribute
  | nonNumericMember
  | unparsableNumber
  | unparsableDate
  | unparsableCircle
  | unparsableGeometry
  | noGeometryColumn
  | disabledFilter
  | emptyNumericFilter
  | groupReachedTwice
  | nestingTooDeep
  | treeCompiled
  | layerCompiled
  | orphanedGroup
  | cacheLookup
  | cacheFull
deriving DecidableEq

namespace Event

def level : Event → Level
  | nonNumericMember | unparsableNumber | unparsableDate | unparsableCircle | unparsableGeometry
  | groupReachedTwice | nestingTooDeep | orphanedGroup => .warn
  | geometryAttribute | noGeometryColumn | disabledFilter | emptyNumericFilter | treeCompiled
  | layerCompiled => .debug
  | cacheLookup | cacheFull => .trace

def message : Event → String
  | geometryAttribute => "geometry attributes only support NULL checks"
  | nonNumericMember => "dropping non-numeric IN value"
  | unparsableNumber => "dropping unparsable numeric value"
  | unparsableDate => "dropping unparsable date value"
  | unparsableCircle => "dropping unparsable circle"
  | unparsableGeometry => "dropping unparsable geometry"
  | noGeometryColumn => "spatial filter has no geometry column for layer"
  | disabledFilter => "skipping disabled filter"
  | emptyNumericFilter => "skipping numeric filter without values"
  | groupReachedTwice => "group reached twice, skipping cycle"
  | nestingTooDeep => "group nesting too deep, dropping child groups"
  | treeCompiled => "compiled filter tree"
  | layerCompiled => "compiled layer filter"
  | orphanedGroup => "filter group references a missing parent and is ignored"
  | cacheLookup => "compile cache lookup"
  | cacheFull => "compile cache full, clearing"

def line (e : Event) : String := e.level.name ++ " " ++ e.message

end Event
end FilterForest
