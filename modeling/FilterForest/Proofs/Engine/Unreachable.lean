import FilterForest.Proofs.Engine.Fresh
import FilterForest.Proofs.Forest.Rooted

/-!
# Groups that never contribute

The outputs of all layers are the same without the groups that no root leads to. Without them a
layer may be gone from the snapshot, but then it had no output.
-/
namespace FilterForest

/-- Sets of layers that agree where a function has values give the same values in one order. -/
theorem LayerSet.filterMap_congr {α : Type} {s t : LayerSet} {f : LayerId → Option α}
    (h : ∀ layer, (f layer).isSome = true → (layer ∈ s ↔ layer ∈ t)) :
    s.toList.filterMap f = t.toList.filterMap f := by
  have hvalues : (s.toList.filter fun layer => (f layer).isSome) =
      t.toList.filter fun layer => (f layer).isSome := by
    apply (s.ascending.filter _).eq_of_mem_iff (t.ascending.filter _)
    intro layer
    rw [List.mem_filter, List.mem_filter]
    exact and_congr_left fun hvalue => h layer hvalue
  have hall : ∀ layers : List LayerId,
      (layers.filter fun layer => (f layer).isSome).filterMap f = layers.filterMap f := by
    intro layers
    rw [List.filterMap_filter]
    apply List.filterMap_congr
    intro layer _
    cases hlayer : f layer <;> simp
  rw [← hall, hvalues, hall]

namespace Engine

/-- Two snapshots give the same outputs. -/
structure SameOutputs (groups groups' : Snapshot) : Prop where
  fresh (options : Options) (format : Format) :
    ((ofOptions options).compile groups format).value =
      ((ofOptions options).compile groups' format).value
  /-- The outputs of one may be in the cache already when the other one is compiled. -/
  again (options : Options) (format : Format) :
    (((ofOptions options).compile groups format).engine.compile groups' format).value =
      ((ofOptions options).compile groups format).value
  after (options : Options) (format : Format) (calls : List Call) :
    (∀ call ∈ calls, call.HasFiniteBuffers) → groups.HasFiniteBuffers →
      groups'.HasFiniteBuffers →
        (((ofOptions options).after calls).compile groups format).value =
          (((ofOptions options).after calls).compile groups' format).value

variable {groups groups' : Snapshot}

theorem result_compute_of_not_mem_layers {engine : Engine} {layer : LayerId} {format : Format}
    (h : layer ∉ groups.layers) : (engine.compute groups layer format).result = none := by
  rw [result_compute, predicate, Snapshot.result_compile_of_not_mem_layers h, Option.map_none]

theorem computeEach_layers_eq
    (h : ∀ layer maxDepth, groups.compile layer maxDepth = groups'.compile layer maxDepth)
    (engine : Engine) (format : Format) :
    engine.computeEach groups format groups.layers.toList =
      engine.computeEach groups' format groups'.layers.toList := by
  have hcompute := fun layer => compute_eq_of_compile (h layer) engine format
  simp only [computeEach, hcompute]
  apply LayerSet.filterMap_congr
  intro layer hvalue
  rw [Option.isSome_map] at hvalue
  have hmem' : layer ∈ groups'.layers := by
    by_contra hnot
    simp [result_compute_of_not_mem_layers hnot] at hvalue
  have hmem : layer ∈ groups.layers := by
    by_contra hnot
    simp [← hcompute, result_compute_of_not_mem_layers hnot] at hvalue
  exact iff_of_true hmem hmem'

/-- Snapshots of which every layer compiles to the same give the same outputs, also if they do not
have the same layers. -/
theorem sameOutputs_of_compile
    (h : ∀ layer maxDepth, groups.compile layer maxDepth = groups'.compile layer maxDepth) :
    SameOutputs groups groups' := by
  refine ⟨fun options format => ?_, fun options format => ?_,
    fun options format calls hcalls hfinite hfinite' => ?_⟩
  · rw [value_compile fun _ => isRightAt_ofOptions, value_compile fun _ => isRightAt_ofOptions,
      computeEach_layers_eq h]
  · have hright : ∀ layer, ((ofOptions options).compile groups format).engine.IsRightAt
        groups' layer format :=
      fun layer => isRightAt_ofOptions.compileLayers (by rw [compute_eq_of_compile (h layer)]) _
    have hoptions : ((ofOptions options).compile groups format).engine.options =
        (ofOptions options).options :=
      options_compileLayers _ _ _ _
    rw [value_compile hright, value_compile fun _ => isRightAt_ofOptions,
      computeEach_congr hoptions, computeEach_layers_eq h]
  · rw [value_compile fun _ => isRightAt_after hcalls hfinite,
      value_compile fun _ => isRightAt_after hcalls hfinite', computeEach_layers_eq h]

/-- Without the groups that no root leads to the outputs are the same, and no layer enters any of
them. Orphans are such groups, and all that only orphans lead to, and the groups of a cycle that no
root leads into. -/
theorem compile_without_unreachable (groups : Snapshot) :
    SameOutputs groups groups.rooted ∧
      (∀ layer maxDepth, ∀ node ∈ groups.enteredNodes layer maxDepth,
        groups.IsRooted node.group) ∧
      (∀ g ∈ groups.orphans, ¬ groups.IsRooted g) ∧
      (∀ g, (∀ top ∈ groups, groups.LeadsTo top g → (∀ parent, ¬ groups.IsChild parent top) →
        top ∈ groups.orphans) → ¬ groups.IsRooted g) ∧
      ∀ g other, groups.LeadsTo g other → groups.LeadsTo other g →
        (groups.IsRooted g ↔
          ∃ root ∈ groups, root.parent = none ∧ groups.LeadsTo root other) := by
  have hsame : SameOutputs groups groups.rooted :=
    sameOutputs_of_compile fun layer maxDepth => (groups.compile_rooted layer maxDepth).symm
  refine ⟨hsame, ?_, ?_, ?_, ?_⟩
  · exact fun layer maxDepth node hn => Snapshot.isRooted_of_mem_enteredNodes hn
  · exact fun g hg => Snapshot.not_isRooted_of_mem_orphans hg
  · exact fun g htops => Snapshot.not_isRooted_of_forall_top htops
  · exact fun g other h h' => Snapshot.isRooted_iff_of_cycle h h'

def leaf (id : String) (layer : LayerId) (parent : Option String) : FilterGroup :=
  ⟨id, .ofList [layer], [⟨"f", false, .property (.ofCondition id .string .isNull)⟩], .and, parent⟩

/-- A root with a child, an orphan with the id of the child, an orphan of another layer with a child
of its own, and a cycle. -/
def overgrown : Snapshot :=
  [leaf "root" 1 none, leaf "a" 1 (some "root"), leaf "a" 1 (some "gone"),
    leaf "b" 2 (some "gone"), leaf "c" 2 (some "b"), leaf "d" 1 (some "e"), leaf "e" 1 (some "d")]

/-- Only the orphan `b` leads to its child `c`. -/
theorem mem_orphans_overgrown {top : FilterGroup} (htop : top ∈ overgrown)
    (hleads : overgrown.LeadsTo top (leaf "c" 2 (some "b")))
    (hnone : ∀ parent, ¬ overgrown.IsChild parent top) : top ∈ overgrown.orphans := by
  have hb : ∀ g ∈ overgrown, g.id = "b" → g = leaf "b" 2 (some "gone") := by decide
  have hgone : ∀ g ∈ overgrown, g.id ≠ "gone" := by decide
  rcases hleads.cases_tail with rfl | ⟨b, hleads, hchild⟩
  · exact absurd ⟨by decide, by decide, rfl⟩ (hnone (leaf "b" 2 (some "gone")))
  · obtain rfl := hb b hchild.parent_mem (Option.some.inj hchild.parent_eq).symm
    rcases hleads.cases_tail with rfl | ⟨gone, _, hchild⟩
    · decide
    · exact absurd (Option.some.inj hchild.parent_eq).symm (hgone gone hchild.parent_mem)

theorem compile_overgrown :
    SameOutputs overgrown [leaf "root" 1 none, leaf "a" 1 (some "root")] ∧
      ¬ overgrown.IsRooted (leaf "c" 2 (some "b")) ∧
      ¬ ∃ root ∈ overgrown, root.parent = none ∧
        overgrown.LeadsTo root (leaf "e" 1 (some "d")) := by
  have hrooted : overgrown.rooted = [leaf "root" 1 none, leaf "a" 1 (some "root")] := by decide
  obtain ⟨hsame, _, _, htops, hcycle⟩ := compile_without_unreachable overgrown
  have hstep : overgrown.IsChild (leaf "d" 1 (some "e")) (leaf "e" 1 (some "d")) :=
    ⟨by decide, by decide, rfl⟩
  have hback : overgrown.IsChild (leaf "e" 1 (some "d")) (leaf "d" 1 (some "e")) :=
    ⟨by decide, by decide, rfl⟩
  refine ⟨hrooted ▸ hsame, htops _ fun top htop => mem_orphans_overgrown htop, ?_⟩
  rw [← hcycle _ _ (.single hstep) (.single hback)]
  decide

end Engine
end FilterForest
