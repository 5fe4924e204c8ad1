import FilterForest.Proofs.Compile.Constrained
import FilterForest.Proofs.Engine.Unreachable

/-!
# Outputs by layer

The outputs of a snapshot are those of its layers, each by itself. So the output of a layer can be
looked up among them, whether any group is for the layer or not, and in both formats they are there
for the same layers.
-/
namespace FilterForest
namespace Engine

variable {engine : Engine} {groups : Snapshot} {format : Format} {layers : List LayerId}

theorem options_next (engine : Engine) (call : Call) :
    (engine.next call).options = engine.options := by
  cases call with
  | compile groups format => exact options_compileLayers engine groups format _
  | compileLayer groups layer format => exact options_compileLayer engine groups layer format
  | predicate | get | size | clear => rfl

theorem options_after (engine : Engine) (calls : List Call) :
    (engine.after calls).options = engine.options := by
  induction calls generalizing engine with
  | nil => rfl
  | cons call calls ih => rw [after, List.foldl_cons, ← after, ih, options_next]

theorem isSome_compute (format : Format) {layer : LayerId} :
    (engine.compute groups layer format).result.isSome =
      (engine.predicate groups layer).result.isSome := by
  rw [result_compute, Option.isSome_map]

theorem lookup_computeEach (layer : LayerId) :
    (engine.computeEach groups format layers).lookup layer =
      if layer ∈ layers then (engine.compute groups layer format).result else none := by
  induction layers with
  | nil => rfl
  | cons first layers ih =>
    rw [computeEach] at ih
    rw [computeEach, List.filterMap_cons]
    by_cases heq : layer = first
    · subst heq
      cases hcompute : (engine.compute groups layer format).result with
      | none => simp [ih, hcompute]
      | some output => simp
    · have hne : (layer == first) = false := beq_eq_false_iff_ne.mpr heq
      cases (engine.compute groups first format).result with
      | none => simp [ih, heq]
      | some output => simp [ih, heq, hne, List.lookup_cons]

theorem keys_computeEach : (engine.computeEach groups format layers).map Prod.fst =
    layers.filter fun layer => (engine.predicate groups layer).result.isSome := by
  induction layers with
  | nil => rfl
  | cons first layers ih =>
    rw [computeEach] at ih
    rw [computeEach, List.filterMap_cons, List.filter_cons, ← isSome_compute format]
    cases (engine.compute groups first format).result with
    | none => simpa using ih
    | some output => simpa using ih

theorem format_of_mem_computeEach {entry : LayerId × Output}
    (h : entry ∈ engine.computeEach groups format layers) : entry.2.format = format := by
  obtain ⟨layer, _, hentry⟩ := List.mem_filterMap.mp h
  obtain ⟨output, houtput, rfl⟩ := Option.map_eq_some_iff.mp hentry
  rw [result_compute] at houtput
  obtain ⟨p, _, rfl⟩ := Option.map_eq_some_iff.mp houtput
  exact Output.format_render format p

/-- The outputs of a snapshot, on an engine whose entries are right for it. -/
theorem lookup_value_compile (h : ∀ layer, engine.IsRightAt groups layer format) (layer : LayerId) :
    (engine.compile groups format).value.lookup layer =
      (engine.compute groups layer format).result := by
  rw [value_compile h, lookup_computeEach]
  split
  · rfl
  · next hnot => rw [result_compute_of_not_mem_layers hnot]

theorem keys_value_compile (h : ∀ layer, engine.IsRightAt groups layer format) :
    (engine.compile groups format).value.map Prod.fst =
      groups.layers.toList.filter fun layer => (engine.predicate groups layer).result.isSome := by
  rw [value_compile h, keys_computeEach]

theorem mem_keys_value_compile_iff (h : ∀ layer, engine.IsRightAt groups layer format)
    (layer : LayerId) : layer ∈ (engine.compile groups format).value.map Prod.fst ↔
      groups.IsConstrained layer engine.options.maxGroupDepth := by
  rw [keys_value_compile h, List.mem_filter, ← Snapshot.isSome_compile_iff]
  refine ⟨And.right, fun hsome => ⟨?_, hsome⟩⟩
  by_contra hnot
  rw [Snapshot.result_compile_of_not_mem_layers hnot] at hsome
  contradiction

/-- After any calls, compiling a snapshot leaves an engine whose entries are right for it. -/
theorem isRightAt_after_compile {options : Options} {calls : List Call}
    (hcalls : ∀ call ∈ calls, call.HasFiniteBuffers) (hgroups : groups.HasFiniteBuffers)
    (format format' : Format) (layer : LayerId) :
    (((ofOptions options).after calls).compile groups format).engine.IsRightAt groups layer
      format' := by
  have hall : ∀ call ∈ calls ++ [.compile groups format], call.HasFiniteBuffers := by
    simpa [or_imp, forall_and] using ⟨hcalls, hgroups⟩
  have hengine : (((ofOptions options).after calls).compile groups format).engine =
      (ofOptions options).after (calls ++ [.compile groups format]) := by
    rw [after_append]
    rfl
  rw [hengine]
  exact isRightAt_after hall hgroups

/-- Whatever an engine compiled before, the outputs of a snapshot are one for each layer that some
filter constrains, the same layers in every format, and what is looked up for a layer is what the
layer compiles to by itself, then and afterwards. -/
theorem lookup_compile_eq_compileLayer {options : Options} {calls : List Call}
    (hcalls : ∀ call ∈ calls, call.HasFiniteBuffers) (hgroups : groups.HasFiniteBuffers)
    (format : Format) :
    let engine := (ofOptions options).after calls
    let reply := engine.compile groups format
    (reply.value.map Prod.fst).Pairwise (· < ·) ∧
      (∀ layer,
        reply.value.lookup layer = (engine.compileLayer groups layer format).value ∧
        reply.value.lookup layer = (reply.engine.compileLayer groups layer format).value ∧
        reply.value.lookup layer =
          (engine.predicate groups layer).result.map (Output.render format)) ∧
      (∀ layer, layer ∈ reply.value.map Prod.fst ↔
        groups.IsConstrained layer engine.options.maxGroupDepth) ∧
      (∀ entry ∈ reply.value, entry.2.format = format) ∧
      ∀ format', (engine.compile groups format').value.map Prod.fst = reply.value.map Prod.fst ∧
        (reply.engine.compile groups format').value.map Prod.fst =
          reply.value.map Prod.fst := by
  intro engine reply
  have hright : ∀ format' layer, engine.IsRightAt groups layer format' :=
    fun _ _ => isRightAt_after hcalls hgroups
  have hright' : ∀ format' layer, reply.engine.IsRightAt groups layer format' :=
    isRightAt_after_compile hcalls hgroups format
  have hoptions : reply.engine.options = engine.options := options_compileLayers _ _ _ _
  refine ⟨?_, fun layer => ⟨?_, ?_, ?_⟩, mem_keys_value_compile_iff (hright format), ?_,
    fun format' => ⟨?_, ?_⟩⟩
  · rw [keys_value_compile (hright format)]
    exact groups.layers.ascending.filter _
  · rw [lookup_value_compile (hright format), (hright format layer).value_compileLayer]
  · rw [lookup_value_compile (hright format), (hright' format layer).value_compileLayer,
      compute_congr hoptions]
  · rw [lookup_value_compile (hright format), result_compute]
  · intro entry hentry
    rw [value_compile (hright format)] at hentry
    exact format_of_mem_computeEach hentry
  · rw [keys_value_compile (hright format), keys_value_compile (hright format')]
  · rw [keys_value_compile (hright format), keys_value_compile (hright' format')]
    simp only [predicate, hoptions]

/-- A group for two layers, with a column for one of them. -/
def halfShown : Snapshot :=
  [⟨"a", .ofList [1, 2], [⟨"near", false, .spatial ⟨[⟨1, ["geom"]⟩], [⟨"here", "POINT(1 2)"⟩],
    some .zero⟩⟩], .and, none⟩]

theorem hasFiniteBuffers_halfShown : halfShown.HasFiniteBuffers := by
  simp [halfShown, Snapshot.HasFiniteBuffers, Filter.HasFiniteBuffer,
    SpatialFilter.HasFiniteBuffer, Binary64.zero, Binary64.isFinite]

/-- The second layer has no output, as the third has none that no group is for. -/
theorem lookup_compile_halfShown :
    let engine := (ofOptions ⟨3, true, true⟩).after
      [.compileLayer halfShown 2 .cql, .compile halfShown .cql2Json]
    let outputs := (engine.compile halfShown .cql).value
    (∀ layer, outputs.lookup layer = (engine.compileLayer halfShown layer .cql).value) ∧
      (1 ∈ outputs.map Prod.fst ∧ 2 ∉ outputs.map Prod.fst ∧ outputs.lookup 3 = none) ∧
      (∀ entry ∈ outputs, entry.2.format = .cql) ∧
      (engine.compile halfShown .cql2Json).value.map Prod.fst = outputs.map Prod.fst ∧
      (halfShown.compile 1 3).result.map Predicate.cql =
        some "(INTERSECTS(geom, POINT(1 2)))".toList := by
  intro engine outputs
  have hcalls : ∀ call ∈ [Call.compileLayer halfShown 2 .cql, .compile halfShown .cql2Json],
      call.HasFiniteBuffers := by
    simp [Call.HasFiniteBuffers, hasFiniteBuffers_halfShown]
  have hoptions : engine.options = (ofOptions ⟨3, true, true⟩).options :=
    options_after _ _
  obtain ⟨-, hlookup, hkeys, hformat, hsame⟩ :=
    lookup_compile_eq_compileLayer hcalls hasFiniteBuffers_halfShown .cql
  refine ⟨fun layer => (hlookup layer).1, ⟨?_, ?_, ?_⟩, hformat, (hsame .cql2Json).1, ?_⟩
  · rw [hkeys 1, ← Snapshot.isSome_compile_iff, hoptions]
    decide +kernel
  · rw [hkeys 2, ← Snapshot.isSome_compile_iff, hoptions]
    decide +kernel
  · rw [(hlookup 3).2.2, predicate, hoptions]
    decide +kernel
  · decide +kernel

end Engine
end FilterForest
