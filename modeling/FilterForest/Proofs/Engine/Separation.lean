import FilterForest.Proofs.Compile.Written
import FilterForest.Proofs.Engine.Cached

/-!
# Outputs with the same key

Snapshots with the same key differ in buffers that are not finite, and in nothing else. In JSON such
buffers are null, whichever they are, so there the outputs are the same. CQL tells them apart by
their names, so only one finite side makes the outputs in CQL the same.
-/
namespace FilterForest.Engine

variable {engine : Engine} {groups groups' : Snapshot} {layer layer' : LayerId}
variable {format format' : Format}

theorem result_compute_cql2Json : (engine.compute groups layer .cql2Json).result =
    (engine.predicate groups layer).json.map .cql2Json := by
  rw [result_compute, Traced.json, Option.map_map]
  rfl

theorem json_predicate_congr
    (h : (groups.applicable layer).asWritten = (groups'.applicable layer).asWritten) :
    (engine.predicate groups layer).json = (engine.predicate groups' layer).json := by
  have happlicable : ∀ groups : Snapshot, (engine.predicate groups layer).json =
      ((groups.applicable layer).asWritten.compile layer engine.options.maxGroupDepth).json := by
    intro groups
    rw [Snapshot.json_compile_asWritten, Snapshot.compile_applicable, predicate]
  rw [happlicable, happlicable, h]

theorem compute_eq_of_asWritten_eq (hfinite : (groups.applicable layer).HasFiniteBuffers)
    (h : (groups.applicable layer).asWritten = (groups'.applicable layer).asWritten) :
    engine.compute groups layer format = engine.compute groups' layer format := by
  have hfinite' : (groups'.applicable layer).HasFiniteBuffers := by
    rw [← Snapshot.hasFiniteBuffers_asWritten_iff, ← h, Snapshot.hasFiniteBuffers_asWritten_iff]
    exact hfinite
  rw [Snapshot.asWritten_of_hasFiniteBuffers hfinite,
    Snapshot.asWritten_of_hasFiniteBuffers hfinite'] at h
  rw [← compute_applicable engine groups, h, compute_applicable]

/-- Equal keys are keys of the same layer and format, and of the same output in JSON. In CQL the
outputs are the same if the buffers on one side are finite. -/
theorem compileLayer_of_key_eq (hnone : engine.cache = none)
    (hkey : Cache.key groups layer format = Cache.key groups' layer' format') :
    layer = layer' ∧ format = format' ∧
      (format = .cql2Json ∨ (groups.applicable layer).HasFiniteBuffers →
        (engine.compileLayer groups layer format).value =
          (engine.compileLayer groups' layer' format').value) := by
  obtain ⟨rfl, rfl, hgroups⟩ := Cache.key_eq_iff.mp hkey
  refine ⟨rfl, rfl, fun hsame => ?_⟩
  rw [compileLayer_of_none hnone, compileLayer_of_none hnone]
  rcases hsame with rfl | hfinite
  · rw [result_compute_cql2Json, result_compute_cql2Json, json_predicate_congr hgroups]
  · rw [compute_eq_of_asWritten_eq hfinite hgroups]

/-- A group with one spatial filter: what is within some distance of a point. -/
def within (distance : Binary64) : Snapshot :=
  [⟨"g", .ofList [1], [⟨"f", false, .spatial ⟨[⟨1, ["geom"]⟩], [⟨"p", "POINT(1 2)"⟩],
    some distance⟩⟩], .and, none⟩]

def cqlWithin? (distance : Binary64) : Option Output :=
  ((ofOptions ⟨3, true, false⟩).compileLayer (within distance) 1 .cql).value

def cqlText? : Output → Option String
  | .cql text => some text
  | .cql2Json _ => none

/-- Two filters with the same key and the same output in JSON, whose outputs in CQL differ. -/
theorem compileLayer_within_nan :
    (∀ format, Cache.key (within .nan) 1 format = Cache.key (within (.infinite false)) 1 format) ∧
    ((ofOptions ⟨3, true, false⟩).compileLayer (within .nan) 1 .cql2Json).value =
      ((ofOptions ⟨3, true, false⟩).compileLayer (within (.infinite false)) 1 .cql2Json).value ∧
    (cqlWithin? .nan).bind cqlText? = some "(INTERSECTS(geom, BUFFER(POINT(1 2), NaN)))" ∧
    (cqlWithin? (.infinite false)).bind cqlText? =
      some "(INTERSECTS(geom, BUFFER(POINT(1 2), inf)))" := by
  have hkey : ∀ format,
      Cache.key (within .nan) 1 format = Cache.key (within (.infinite false)) 1 format :=
    fun format => Cache.key_eq_iff.mpr ⟨rfl, rfl, by decide⟩
  have hnone : (ofOptions ⟨3, true, false⟩).cache = none := rfl
  obtain ⟨_, _, hsame⟩ := compileLayer_of_key_eq hnone (hkey .cql2Json)
  exact ⟨hkey, hsame (.inl rfl), by decide +kernel, by decide +kernel⟩

end FilterForest.Engine
