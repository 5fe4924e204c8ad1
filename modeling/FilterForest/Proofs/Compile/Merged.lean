import FilterForest.Predicate.Cql
import FilterForest.Proofs.Compile.Condition
import FilterForest.Proofs.Forest.Interleaved
import FilterForest.Proofs.Predicate.Truth

/-!
# Merged snapshots

Two snapshots are apart if no group of one names a group of the other as its parent. Merged in any
way that keeps the order of each, they restrict a layer as much as both do on their own. One after
the other, the predicates at the root are those of the first and then those of the second.
-/
namespace FilterForest.Snapshot

/-- No group of one snapshot names a group of the other as its parent. -/
def IsApart (as bs : Snapshot) : Prop :=
  ∀ a ∈ as, ∀ b ∈ bs, a.parent ≠ some b.id ∧ b.parent ≠ some a.id

instance (as bs : Snapshot) : Decidable (as.IsApart bs) :=
  inferInstanceAs (Decidable (∀ a ∈ as, ∀ b ∈ bs, _ ∧ _))

variable {as bs merged : Snapshot} {layer : LayerId}

/-- The nodes of a merged snapshot, by the snapshot that their groups are from, are forests that do
not touch. -/
theorem IsApart.joins (hapart : as.IsApart bs) {left right : List Node}
    (hnodes : Interleaves left right (Forest.ofSnapshot merged layer).nodes)
    (hleft : left.map Node.group = as.applicable layer)
    (hright : right.map Node.group = bs.applicable layer) :
    (Forest.ofSnapshot merged layer).Joins ⟨left⟩ ⟨right⟩ := by
  have hmem_left : ∀ node ∈ left, node.group ∈ as := fun node hnode =>
    List.mem_of_mem_filter (hleft ▸ List.mem_map_of_mem hnode : node.group ∈ as.applicable layer)
  have hmem_right : ∀ node ∈ right, node.group ∈ bs := fun node hnode =>
    List.mem_of_mem_filter (hright ▸ List.mem_map_of_mem hnode : node.group ∈ bs.applicable layer)
  exact
    { nodes := hnodes
      positions := Forest.positions_ofSnapshot merged layer
      left_parent := fun a ha b hb => (hapart _ (hmem_left a ha) _ (hmem_right b hb)).1
      right_parent := fun a ha b hb => (hapart _ (hmem_left a ha) _ (hmem_right b hb)).2 }

/-- A forest asks for what the groups of its nodes ask for, whatever their positions are. -/
theorem rootPredicates_of_groups {forest : Forest} (maxDepth : ℕ)
    (hpos : (forest.nodes.map Node.position).Nodup)
    (hgroups : forest.nodes.map Node.group = as.applicable layer) :
    ((forest.walk maxDepth).filterMap fun visit => (visit.compile layer).result) =
      as.rootPredicates layer maxDepth := by
  have hwalk : (forest.walk maxDepth).map (Visit.compile layer) =
      (as.visits layer maxDepth).map (Visit.compile layer) :=
    Forest.map_compile_walk_congr hpos (Forest.positions_ofSnapshot as layer)
      (hgroups.trans (Forest.groups_ofSnapshot as layer).symm) maxDepth
  have hresults := congrArg (List.filterMap Traced.result) hwalk
  rwa [List.filterMap_map, List.filterMap_map] at hresults

theorem IsApart.interleaves_rootPredicates (hapart : as.IsApart bs)
    (hmerged : Interleaves as bs merged) (maxDepth : ℕ) :
    Interleaves (as.rootPredicates layer maxDepth) (bs.rootPredicates layer maxDepth)
      (merged.rootPredicates layer maxDepth) := by
  have hgroups : Interleaves (as.applicable layer) (bs.applicable layer)
      ((Forest.ofSnapshot merged layer).nodes.map Node.group) := by
    rw [Forest.groups_ofSnapshot]
    exact hmerged.filter _
  obtain ⟨left, right, hnodes, hleft, hright⟩ := hgroups.exists_of_map
  have hjoins := hapart.joins hnodes hleft hright
  obtain ⟨hpos, hpos', -⟩ := List.nodup_append.mp hjoins.positions_append
  rw [← rootPredicates_of_groups maxDepth hpos hleft,
    ← rootPredicates_of_groups maxDepth hpos' hright]
  exact (hjoins.walk maxDepth).filterMap _

theorem IsApart.rootPredicates_append (hapart : as.IsApart bs) (maxDepth : ℕ) :
    (as ++ bs).rootPredicates layer maxDepth =
      as.rootPredicates layer maxDepth ++ bs.rootPredicates layer maxDepth := by
  have hgroups : (Forest.ofSnapshot (as ++ bs) layer).nodes.map Node.group =
      as.applicable layer ++ bs.applicable layer := by
    rw [Forest.groups_ofSnapshot, applicable, List.filter_append]
    rfl
  obtain ⟨left, right, hnodes, hleft, hright⟩ := List.map_eq_append_iff.mp hgroups
  have hmerged : Interleaves left right (Forest.ofSnapshot (as ++ bs) layer).nodes := by
    rw [hnodes]
    exact .append left right
  have hjoins := hapart.joins hmerged hleft hright
  obtain ⟨hpos, hpos', -⟩ := List.nodup_append.mp hjoins.positions_append
  rw [← rootPredicates_of_groups maxDepth hpos hleft,
    ← rootPredicates_of_groups maxDepth hpos' hright, ← List.filterMap_append,
    ← hjoins.walk_append hnodes]
  rfl

/-- Snapshots that are apart compile together to what is true where both are, in whatever way they
are merged. -/
theorem compile_of_interleaves (layer : LayerId) (maxDepth : ℕ) (hapart : as.IsApart bs) :
    (∀ merged : Snapshot, Interleaves as bs merged →
      ((merged.compile layer maxDepth).result = none ↔
        (as.compile layer maxDepth).result = none ∧ (bs.compile layer maxDepth).result = none) ∧
      ∀ p, (merged.compile layer maxDepth).result = some p → ∀ truth, p.holds truth =
        ((as.compile layer maxDepth).result.all (Predicate.holds truth) &&
          (bs.compile layer maxDepth).result.all (Predicate.holds truth))) ∧
      (as ++ bs).rootPredicates layer maxDepth =
        as.rootPredicates layer maxDepth ++ bs.rootPredicates layer maxDepth ∧
      ∀ groups : Snapshot, (groups.compile layer maxDepth).result =
        Predicate.combine .and (groups.rootPredicates layer maxDepth) := by
  refine ⟨fun merged hmerged => ?_, hapart.rootPredicates_append maxDepth,
    fun groups => groups.result_compile_eq_combine layer maxDepth⟩
  have hroots : Interleaves (as.rootPredicates layer maxDepth) (bs.rootPredicates layer maxDepth)
      (merged.rootPredicates layer maxDepth) := hapart.interleaves_rootPredicates hmerged maxDepth
  constructor
  · simp only [result_compile_eq_none_iff]
    exact hroots.eq_nil_iff
  · intro p hp truth
    have hall : (merged.compile layer maxDepth).result.all (Predicate.holds truth) =
        p.holds truth := by rw [hp, Option.all_some]
    rw [← hall]
    simp only [result_compile_eq_combine, Predicate.all_holds_combine_and]
    exact hroots.all_eq _

/-- A group of layer 1 that asks for the property of its own name to be null. -/
def asking (id : String) (parent : Option String) : FilterGroup :=
  ⟨id, .ofList [1], [⟨"f", false, .property (.ofCondition id .string .isNull)⟩], .and, parent⟩

/-- A root whose id is repeated in a cycle below it, and another root. -/
def cycleBelowRoot : Snapshot :=
  [asking "a" none, asking "b" (some "a"), asking "a" (some "b"), asking "both" none]

/-- A child before its root, a root that the other snapshot has as well, and an orphan. -/
def childBeforeRoot : Snapshot :=
  [asking "d" (some "c"), asking "both" none, asking "c" none, asking "e" (some "missing")]

def zipped : Snapshot :=
  [asking "a" none, asking "d" (some "c"), asking "both" none, asking "b" (some "a"),
    asking "a" (some "b"), asking "c" none, asking "both" none, asking "e" (some "missing")]

theorem interleaves_zipped : Interleaves cycleBelowRoot childBeforeRoot zipped :=
  .left (.right (.right (.left (.left (.right (.left (.right .nil)))))))

theorem compile_zipped :
    cycleBelowRoot.IsApart childBeforeRoot ∧
      (∀ p, (zipped.compile 1 5).result = some p → ∀ truth, p.holds truth =
        ((cycleBelowRoot.compile 1 5).result.all (Predicate.holds truth) &&
          (childBeforeRoot.compile 1 5).result.all (Predicate.holds truth))) ∧
      (cycleBelowRoot.compile 1 5).result.map Predicate.cql =
        some "(((a IS NULL) AND ((b IS NULL) AND (a IS NULL))) AND (both IS NULL))".toList ∧
      (childBeforeRoot.compile 1 5).result.map Predicate.cql =
        some "((both IS NULL) AND ((c IS NULL) AND (d IS NULL)))".toList ∧
      ((zipped.rootPredicates 1 5).map Predicate.cql).map String.ofList =
        ["((a IS NULL) AND ((b IS NULL) AND (a IS NULL)))", "(both IS NULL)",
          "((c IS NULL) AND (d IS NULL))", "(both IS NULL)"] := by
  have hapart : cycleBelowRoot.IsApart childBeforeRoot := by decide +kernel
  exact ⟨hapart, ((compile_of_interleaves 1 5 hapart).1 zipped interleaves_zipped).2,
    by decide +kernel, by decide +kernel, by decide +kernel⟩

end FilterForest.Snapshot
