import FilterForest.Proofs.Compile.Condition

/-!
# Layers that are constrained

A layer compiles to something exactly if some filter does that takes part in a group the walk
enters: an active filter that was not generated from another, or an active one that was generated
from it.
-/
namespace FilterForest

namespace Visit

variable (layer : LayerId)

mutual

/-- A visit compiles to nothing exactly if no group that it enters asks for anything. -/
theorem result_compile_eq_none_iff : ∀ visit : Visit, (compile layer visit).result = none ↔
    ∀ node ∈ visit.nodes, node.group.ownConditions layer = []
  | again node => by simp [compile, nodes]
  | cut node => by
    rw [result_compile_cut, Predicate.combine_eq_none_iff, nodes, List.forall_mem_singleton]
  | entered node children => by
    rw [result_compile_entered, Predicate.combine_eq_none_iff, List.append_eq_nil_iff,
      results_eq_nil_iff children, nodes, List.forall_mem_cons]

theorem results_eq_nil_iff : ∀ visits : List Visit,
    (visits.filterMap fun visit => (compile layer visit).result) = [] ↔
      ∀ node ∈ nodesOfAll visits, node.group.ownConditions layer = []
  | [] => by simp [nodesOfAll]
  | visit :: rest => by
    have hrest := results_eq_nil_iff rest
    rw [List.filterMap_eq_nil_iff] at hrest
    rw [List.filterMap_eq_nil_iff, List.forall_mem_cons, result_compile_eq_none_iff visit, hrest,
      nodesOfAll, List.forall_mem_append]

end

end Visit

/-- A group asks for something exactly if a filter compiles that takes part in it. -/
theorem FilterGroup.ownConditions_eq_nil_iff (layer : LayerId) (g : FilterGroup) :
    g.ownConditions layer = [] ↔ ∀ primary ∈ g.primaries,
      ∀ f ∈ primary :: g.generatedFrom primary.id, (f.compile layer).result = none := by
  simp only [ownConditions, ← primaries_eq, List.filterMap_eq_nil_iff,
    Predicate.combine_eq_none_iff, alternatives, ← generatedFrom_eq]

namespace Snapshot

/-- A layer for which a filter compiles that takes part in a group that is entered. -/
def IsConstrained (groups : Snapshot) (layer : LayerId) (maxDepth : ℕ) : Prop :=
  ∃ node ∈ groups.enteredNodes layer maxDepth, ∃ primary ∈ node.group.primaries,
    ∃ f ∈ primary :: node.group.generatedFrom primary.id, (f.compile layer).result.isSome = true

/-- A layer compiles to something exactly if it is constrained. -/
theorem isSome_compile_iff (groups : Snapshot) (layer : LayerId) (maxDepth : ℕ) :
    (groups.compile layer maxDepth).result.isSome = true ↔
      groups.IsConstrained layer maxDepth := by
  rw [← not_iff_not, Bool.not_eq_true, Option.isSome_eq_false_iff, Option.isNone_iff_eq_none,
    result_compile, Predicate.combine_eq_none_iff, Visit.results_eq_nil_iff]
  simp only [FilterGroup.ownConditions_eq_nil_iff, IsConstrained, enteredNodes, not_exists,
    not_and, Option.not_isSome_iff_eq_none]

end Snapshot
end FilterForest
