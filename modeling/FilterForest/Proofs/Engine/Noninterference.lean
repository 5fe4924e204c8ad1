import FilterForest.Proofs.Compile.Layer
import FilterForest.Proofs.Engine.Fresh

/-!
# Layers do not interfere

What an engine gives for a layer is the same for all snapshots of which the layer sees the same,
whatever else is in them for other layers.
-/
namespace FilterForest.Engine

/-- Two snapshots give the same for a layer. -/
structure SameFor (layer : LayerId) (groups groups' : Snapshot) : Prop where
  predicate (engine : Engine) : engine.predicate groups layer = engine.predicate groups' layer
  fresh (options : Options) (format : Format) :
    ((ofOptions options).compileLayer groups layer format).value =
      ((ofOptions options).compileLayer groups' layer format).value
  /-- The output of one may be in the cache already when the other one is compiled. -/
  again (options : Options) (format : Format) :
    (((ofOptions options).compileLayer groups layer format).engine.compileLayer
        groups' layer format).value =
      ((ofOptions options).compileLayer groups layer format).value
  after (options : Options) (format : Format) (calls : List Call) :
    (∀ call ∈ calls, call.HasFiniteBuffers) → groups.HasFiniteBuffers →
      groups'.HasFiniteBuffers →
        (((ofOptions options).after calls).compileLayer groups layer format).value =
          (((ofOptions options).after calls).compileLayer groups' layer format).value

variable {layer : LayerId} {groups groups' : Snapshot}

theorem sameFor_of_compile
    (h : ∀ maxDepth, groups.compile layer maxDepth = groups'.compile layer maxDepth) :
    SameFor layer groups groups' := by
  have hcompute := compute_eq_of_compile h
  refine ⟨fun engine => h _, fun options format => ?_, fun options format => ?_,
    fun options format calls hcalls hfinite hfinite' => ?_⟩
  · rw [isRightAt_ofOptions.value_compileLayer, isRightAt_ofOptions.value_compileLayer, hcompute]
  · have hright : ((ofOptions options).compileLayer groups layer format).engine.IsRightAt
        groups' layer format :=
      isRightAt_ofOptions.compileLayer fun _ => by rw [hcompute]
    rw [hright.value_compileLayer, isRightAt_ofOptions.value_compileLayer, hcompute,
      compute_congr ((ofOptions options).options_compileLayer groups layer format)]
  · rw [(isRightAt_after hcalls hfinite).value_compileLayer,
      (isRightAt_after hcalls hfinite').value_compileLayer, hcompute]

/-- Snapshots that agree on a layer give the same for it, and so does a snapshot with groups for
other layers put in anywhere. -/
theorem compileLayer_noninterference (layer : LayerId) :
    (∀ groups groups' : Snapshot, groups.AgreesOn layer groups' → SameFor layer groups groups') ∧
      ∀ before inserted after : Snapshot, (∀ g ∈ inserted, layer ∉ g.layers) →
        SameFor layer (before ++ after) (before ++ inserted ++ after) := by
  refine ⟨fun groups groups' h => sameFor_of_compile h.compile, ?_⟩
  intro before inserted after hother
  have hinserted : inserted.applicable layer = [] := by
    rw [Snapshot.applicable, List.filter_eq_nil_iff]
    exact fun g hg happ => hother g hg (g.appliesTo_iff.mp happ)
  have happlicable : Snapshot.applicable (before ++ inserted ++ after) layer =
      Snapshot.applicable (before ++ after) layer := by
    rw [Snapshot.applicable] at hinserted
    simp only [Snapshot.applicable, List.filter_append, hinserted, List.append_nil]
  apply sameFor_of_compile
  intro maxDepth
  rw [← Snapshot.compile_applicable, ← happlicable, Snapshot.compile_applicable]

def alone : Snapshot :=
  [⟨"a", .ofList [1], [⟨"f", false, .spatial ⟨[⟨1, ["geom"]⟩], [⟨"p", "POINT(1 2)"⟩], none⟩⟩],
    .and, none⟩]

def elsewhere : FilterGroup :=
  ⟨"b", .ofList [2], [⟨"n", false, .property (.ofCondition "p" .string .isNull)⟩], .or, none⟩

/-- The group of the layer shared with the other one, which has a column of its own. -/
def shared : Snapshot :=
  [elsewhere, ⟨"a", .ofList [2, 1], [⟨"f", false, .spatial ⟨[⟨2, ["shape"]⟩, ⟨1, ["geom"]⟩],
    [⟨"p", "POINT(1 2)"⟩], none⟩⟩], .and, none⟩]

theorem sameFor_alone_shared :
    SameFor 1 alone shared ∧ SameFor 1 alone (elsewhere :: alone) ∧
      (alone.compile 1 1).result.map Predicate.cql =
        some "(INTERSECTS(geom, POINT(1 2)))".toList ∧
      (shared.compile 2 1).result.map Predicate.cql =
        some "((p IS NULL) AND (INTERSECTS(shape, POINT(1 2))))".toList := by
  have hagrees : alone.AgreesOn 1 shared :=
    .cons ⟨rfl, rfl, rfl, .cons ⟨rfl, rfl, .spatial (by decide) rfl rfl⟩ .nil⟩ .nil
  have hother : ∀ g ∈ [elsewhere], 1 ∉ g.layers := by decide
  obtain ⟨hsame, hinserted⟩ := compileLayer_noninterference 1
  exact ⟨hsame alone shared hagrees, hinserted [] [elsewhere] alone hother, by decide +kernel,
    by decide +kernel⟩

end FilterForest.Engine
