import FilterForest.Compile.Tree
import FilterForest.Engine.Cache

/-!
# The engine

An engine compiles snapshots under fixed options, and keeps results if its options say so. Its
operations answer with the engine as they leave it and the events they report.
-/

namespace FilterForest

structure Engine where
  options : Options
  cache : Option Cache

structure Reply (α : Type) where
  value : α
  engine : Engine
  events : List Event

namespace Engine

/-- An engine with the given options. A depth that would leave out the roots is raised. -/
def ofOptions (options : Options) : Engine where
  options := { options with maxGroupDepth := max 1 options.maxGroupDepth }
  cache := if options.cache then some .empty else none

def default : Engine := ofOptions .default

variable (engine : Engine)

def predicate (groups : Snapshot) (layer : LayerId) : Traced Predicate :=
  groups.compile layer engine.options.maxGroupDepth

/-- The output of a layer, computed anew. -/
def compute (groups : Snapshot) (layer : LayerId) (format : Format) : Traced Output := do
  let predicate ← engine.predicate groups layer
  .log [.layerCompiled]
  return .render format predicate

/-- The output of a layer, from the cache if it is there. -/
def compileLayer (groups : Snapshot) (layer : LayerId) (format : Format) :
    Reply (Option Output) :=
  let computed := engine.compute groups layer format
  match engine.cache with
  | none => ⟨computed.result, engine, computed.events⟩
  | some cache =>
    let key := Cache.key groups layer format
    match cache.find? key with
    | some output => ⟨output, engine, [.cacheLookup]⟩
    | none =>
      ⟨computed.result, { engine with cache := some (cache.insert key computed.result) },
        [.cacheLookup] ++ computed.events ++ if cache.isFull then [.cacheFull] else []⟩

/-- The outputs of several layers in turn; layers without one are left out. -/
def compileLayers (groups : Snapshot) (format : Format) :
    List LayerId → Engine → Reply (List (LayerId × Output))
  | [], engine => ⟨[], engine, []⟩
  | layer :: rest, engine =>
    let first := engine.compileLayer groups layer format
    let others := compileLayers groups format rest first.engine
    ⟨(first.value.map fun output => (layer, output)).toList ++ others.value, others.engine,
      first.events ++ others.events⟩

/-- What is reported about groups with a missing parent. -/
def orphanEvents (groups : Snapshot) : List Event :=
  if engine.options.reportOrphans then groups.orphans.map fun _ => .orphanedGroup else []

/-- The outputs of all layers of a snapshot, in ascending order of the layers. -/
def compile (groups : Snapshot) (format : Format) : Reply (List (LayerId × Output)) :=
  let reply := compileLayers groups format groups.layers.toList engine
  { reply with events := engine.orphanEvents groups ++ reply.events }

/-- Looks for the output of a layer in the cache. No value means that there is no cache, and a
missing entry that the cache does not have the output. -/
def lookUp (groups : Snapshot) (layer : LayerId) (format : Format) :
    Reply (Option (Option (Option Output))) :=
  match engine.cache with
  | none => ⟨none, engine, []⟩
  | some cache => ⟨some (cache.find? (Cache.key groups layer format)), engine, [.cacheLookup]⟩

def clearCache : Engine := { engine with cache := engine.cache.map fun _ => .empty }

end Engine
end FilterForest
