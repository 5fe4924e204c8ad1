import FilterForest.Proofs.Compile.Reports
import FilterForest.Proofs.Forest.UniqueIds

/-!
# The condition of a group

What a group asks for, said by recursion on its depth alone: its own conditions and those of the
groups that name it as their parent. No account of entered groups is kept. Over groups with ids of
their own this is what compiling a layer gives.
-/
namespace FilterForest

namespace FilterGroup

variable (layer : LayerId) (g : FilterGroup)

/-- A filter and the active filters that were generated from it, as far as they compile. -/
def alternatives (f : Filter) : List Predicate :=
  (f :: g.filters.filter fun other => other.isActive && other.generatedBy = some f.id).filterMap
    fun other => (other.compile layer).result

/-- One condition for each active filter that was not generated from another. -/
def ownConditions : List Predicate :=
  (g.filters.filter fun f => f.isActive && f.generatedBy.isNone).filterMap fun f =>
    Predicate.combine .or (g.alternatives layer f)

theorem generatedFrom_eq (id : String) : g.generatedFrom id =
    g.filters.filter fun other => other.isActive && other.generatedBy = some id := by
  simp only [generatedFrom, active, List.filter_filter, Bool.and_comm]

theorem primaries_eq :
    g.primaries = g.filters.filter fun f => f.isActive && f.generatedBy.isNone := by
  simp only [primaries, active, List.filter_filter, Bool.and_comm]

theorem result_compilePrimary (f : Filter) :
    (g.compilePrimary layer f).result = Predicate.combine .or (g.alternatives layer f) := by
  simp only [compilePrimary, Traced.result_bind, Traced.result_collect, Option.bind_some,
    Traced.result_ofOption, alternatives, generatedFrom_eq, List.filterMap_map]
  rfl

theorem result_terms : (g.terms layer).result = some (g.ownConditions layer) := by
  simp only [terms, Traced.result_bind, Traced.result_log, Traced.result_collect, Option.bind_some,
    ownConditions, primaries_eq, List.filterMap_map]
  congr 2
  funext f
  exact g.result_compilePrimary layer f

end FilterGroup

namespace Snapshot

/-- The groups of a layer that name a group as their parent, in the order of the snapshot. -/
def childGroups (groups : Snapshot) (layer : LayerId) (g : FilterGroup) : List FilterGroup :=
  (groups.applicable layer).filter fun child => child.parent = some g.id

/-- The groups of a layer without a parent, in the order of the snapshot. -/
def rootGroups (groups : Snapshot) (layer : LayerId) : List FilterGroup :=
  (groups.applicable layer).filter fun root => root.parent = none

/-- What a group at a depth asks for: its own conditions, and unless it is at the greatest depth
those of its children, joined with its operator. -/
def condition (groups : Snapshot) (layer : LayerId) (maxDepth depth : ℕ) (g : FilterGroup) :
    Option Predicate :=
  Predicate.combine g.operator (g.ownConditions layer ++
    if depth < maxDepth then
      (groups.childGroups layer g).filterMap fun child =>
        condition groups layer maxDepth (depth + 1) child
    else [])
termination_by maxDepth - depth

variable {groups : Snapshot} {layer : LayerId} {maxDepth depth : ℕ}

theorem condition_of_lt (h : depth < maxDepth) (g : FilterGroup) :
    groups.condition layer maxDepth depth g = Predicate.combine g.operator
      (g.ownConditions layer ++
        (groups.childGroups layer g).filterMap (groups.condition layer maxDepth (depth + 1))) := by
  rw [condition, if_pos h]

theorem condition_of_le (h : maxDepth ≤ depth) (g : FilterGroup) :
    groups.condition layer maxDepth depth g =
      Predicate.combine g.operator (g.ownConditions layer) := by
  rw [condition, if_neg (Nat.not_lt.mpr h), List.append_nil]

theorem mem_rootGroups {g : FilterGroup} :
    g ∈ groups.rootGroups layer ↔ g ∈ groups.applicable layer ∧ g.parent = none := by
  simp [rootGroups]

theorem mem_childGroups {g parent : FilterGroup} : g ∈ groups.childGroups layer parent ↔
    g ∈ groups.applicable layer ∧ g.parent = some parent.id := by
  simp [childGroups]

theorem groups_childrenOf (g : FilterGroup) :
    ((Forest.ofSnapshot groups layer).childrenOf g.id).map Node.group =
      groups.childGroups layer g := by
  rw [childGroups, ← Forest.groups_ofSnapshot, List.filter_map]
  rfl

theorem groups_roots :
    (Forest.ofSnapshot groups layer).roots.map Node.group = groups.rootGroups layer := by
  rw [rootGroups, ← Forest.groups_ofSnapshot, List.filter_map]
  rfl

end Snapshot

namespace Visit

variable (layer : LayerId)

theorem result_compile_cut (node : Node) :
    (compile layer (.cut node)).result =
      Predicate.combine node.group.operator (node.group.ownConditions layer) := by
  simp [compile, node.group.result_terms layer]

theorem result_compile_entered (node : Node) (children : List Visit) :
    (compile layer (.entered node children)).result = Predicate.combine node.group.operator
      (node.group.ownConditions layer ++
        children.filterMap fun visit => (visit.compile layer).result) := by
  simp only [compile, Traced.result_bind, node.group.result_terms layer, Option.bind_some,
    Traced.result_collect, compileEach_eq_map, List.filterMap_map, Traced.result_ofOption]
  rfl

end Visit

namespace Forest

/-- A visit that refuses no group compiles to the condition of its node. -/
theorem result_compile_visit (groups : Snapshot) (layer : LayerId) (maxDepth levels : ℕ) :
    (∀ node entered depth, levels = maxDepth - depth →
      ((ofSnapshot groups layer).visit levels node entered).1.refused = [] →
      (Visit.compile layer ((ofSnapshot groups layer).visit levels node entered).1).result =
        groups.condition layer maxDepth depth node.group) ∧
    ∀ nodes entered depth, levels = maxDepth - depth →
      Visit.refusedOfAll
        (visitEach ((ofSnapshot groups layer).visit levels) nodes entered).1 = [] →
      (visitEach ((ofSnapshot groups layer).visit levels) nodes entered).1.filterMap
          (fun visit => (visit.compile layer).result) =
        (nodes.map Node.group).filterMap (groups.condition layer maxDepth depth) := by
  apply (ofSnapshot groups layer).visit_induction ?_ ?_ ?_ ?_ ?_ ?_ levels
  · intro levels node entered h depth _ hrefused
    simp [visit_of_mem levels h, Visit.refused] at hrefused
  · intro node entered h hc depth hlevels _
    rw [visit_cut h hc, Visit.result_compile_cut, Snapshot.condition_of_le (by omega)]
  · intro node entered h hc depth hlevels _
    rw [visit_leaf h hc, Visit.result_compile_entered, Snapshot.condition_of_le (by omega)]
    simp
  · intro levels node entered h ih depth hlevels hrefused
    rw [visit_succ h, Visit.refused] at hrefused
    rw [visit_succ h, Visit.result_compile_entered, Snapshot.condition_of_lt (by omega),
      ih (depth + 1) (by omega) hrefused, Snapshot.groups_childrenOf]
  · intro levels entered depth _ _
    rfl
  · intro levels node rest entered hone heach depth hlevels hrefused
    rw [visitEach_cons, Visit.refusedOfAll] at hrefused
    obtain ⟨hfirst, hrest⟩ := List.append_eq_nil_iff.mp hrefused
    rw [visitEach_cons, List.map_cons, List.filterMap_cons, List.filterMap_cons,
      hone depth hlevels hfirst, heach depth hlevels hrest]

end Forest

namespace Visit

mutual

/-- The events of a walk, those of the filters of its groups apart. -/
def warnings : Visit → List Event
  | again _ => [.groupReachedTwice]
  | cut _ => [.nestingTooDeep]
  | entered _ children => warningsOfAll children

def warningsOfAll : List Visit → List Event
  | [] => []
  | visit :: rest => warnings visit ++ warningsOfAll rest

end

mutual

theorem groupReachedTwice_mem_warnings_iff : ∀ visit : Visit,
    Event.groupReachedTwice ∈ visit.warnings ↔ visit.refused ≠ []
  | again node => by simp [warnings, refused]
  | cut node => by simp [warnings, refused]
  | entered node children => by
    rw [warnings, refused, groupReachedTwice_mem_warningsOfAll_iff children]

theorem groupReachedTwice_mem_warningsOfAll_iff : ∀ visits : List Visit,
    Event.groupReachedTwice ∈ warningsOfAll visits ↔ refusedOfAll visits ≠ []
  | [] => by simp [warningsOfAll, refusedOfAll]
  | visit :: rest => by
    rw [warningsOfAll, refusedOfAll, List.mem_append, groupReachedTwice_mem_warnings_iff visit,
      groupReachedTwice_mem_warningsOfAll_iff rest]
    simp only [ne_eq, List.append_eq_nil_iff]
    tauto

end

mutual

theorem nestingTooDeep_mem_warnings_iff : ∀ visit : Visit,
    Event.nestingTooDeep ∈ visit.warnings ↔ visit.cutNodes ≠ []
  | again node => by simp [warnings, cutNodes]
  | cut node => by simp [warnings, cutNodes]
  | entered node children => by
    rw [warnings, cutNodes, nestingTooDeep_mem_warningsOfAll_iff children]

theorem nestingTooDeep_mem_warningsOfAll_iff : ∀ visits : List Visit,
    Event.nestingTooDeep ∈ warningsOfAll visits ↔ cutNodesOfAll visits ≠ []
  | [] => by simp [warningsOfAll, cutNodesOfAll]
  | visit :: rest => by
    rw [warningsOfAll, cutNodesOfAll, List.mem_append, nestingTooDeep_mem_warnings_iff visit,
      nestingTooDeep_mem_warningsOfAll_iff rest]
    simp only [ne_eq, List.append_eq_nil_iff]
    tauto

end

variable (layer : LayerId) {e : Event}

mutual

/-- Compiling reports an event that is about no filter exactly if the walk does. -/
theorem mem_events_compile_iff (he : ¬ e.IsAboutFilter) : ∀ visit : Visit,
    e ∈ (compile layer visit).events ↔ e ∈ visit.warnings
  | again node => by simp [compile, warnings]
  | cut node => by
    have hterms : e ∉ (node.group.terms layer).events :=
      fun hmem => he (node.group.reports_terms layer _ hmem)
    simp [compile, warnings, Traced.events_bind_of_some _ (node.group.result_terms layer),
      Traced.events_bind_of_some _ (Traced.result_log _), hterms]
  | entered node children => by
    have hterms : e ∉ (node.group.terms layer).events :=
      fun hmem => he (node.group.reports_terms layer _ hmem)
    have hchildren := mem_events_compileEach_iff he children
    simp [compile, warnings, Traced.events_bind_of_some _ (node.group.result_terms layer),
      Traced.events_bind_of_some _ (Traced.result_collect _), hterms, hchildren]

theorem mem_events_compileEach_iff (he : ¬ e.IsAboutFilter) : ∀ visits : List Visit,
    e ∈ (compileEach layer visits).flatMap Traced.events ↔ e ∈ warningsOfAll visits
  | [] => by simp [compileEach, warningsOfAll]
  | visit :: rest => by
    rw [compileEach, List.flatMap_cons, List.mem_append, mem_events_compile_iff he visit,
      mem_events_compileEach_iff he rest, warningsOfAll, List.mem_append]

end

/-- Compiling reports a group reached twice exactly when the walk refused one. -/
theorem groupReachedTwice_mem_compileEach_iff (visits : List Visit) :
    Event.groupReachedTwice ∈ (compileEach layer visits).flatMap Traced.events ↔
      refusedOfAll visits ≠ [] := by
  rw [mem_events_compileEach_iff layer (by decide), groupReachedTwice_mem_warningsOfAll_iff]

end Visit

namespace Snapshot

variable {groups : Snapshot} {layer : LayerId}

theorem result_compile (groups : Snapshot) (layer : LayerId) (maxDepth : ℕ) :
    (groups.compile layer maxDepth).result = Predicate.combine .and
      ((groups.visits layer maxDepth).filterMap fun visit => (visit.compile layer).result) := by
  simp only [compile, visits, Traced.result_bind, Traced.result_collect, Option.bind_some,
    Traced.result_log, Traced.result_ofOption, List.filterMap_map]
  rfl

/-- The predicates that compiling a layer joins, one for each root that asks for anything. -/
def rootPredicates (groups : Snapshot) (layer : LayerId) (maxDepth : ℕ) : List Predicate :=
  (groups.visits layer maxDepth).filterMap fun visit => (visit.compile layer).result

theorem result_compile_eq_combine (groups : Snapshot) (layer : LayerId) (maxDepth : ℕ) :
    (groups.compile layer maxDepth).result =
      Predicate.combine .and (groups.rootPredicates layer maxDepth) :=
  groups.result_compile layer maxDepth

theorem result_compile_eq_none_iff (maxDepth : ℕ) :
    (groups.compile layer maxDepth).result = none ↔ groups.rootPredicates layer maxDepth = [] := by
  rw [result_compile_eq_combine, Predicate.combine_eq_none_iff]

theorem rootPredicates_eq_conditions (maxDepth : ℕ)
    (hids : ((groups.applicable layer).map FilterGroup.id).Nodup) :
    groups.rootPredicates layer maxDepth =
      (groups.rootGroups layer).filterMap (groups.condition layer maxDepth 1) := by
  rw [← groups_roots]
  exact (Forest.result_compile_visit groups layer maxDepth (maxDepth - 1)).2 _ .none 1 rfl
    (refusedOfAll_visits hids maxDepth)

theorem events_compile (groups : Snapshot) (layer : LayerId) (maxDepth : ℕ) :
    (groups.compile layer maxDepth).events =
      (Visit.compileEach layer (groups.visits layer maxDepth)).flatMap Traced.events ++
        [.treeCompiled] := by
  rw [compile, Traced.events_bind_of_some _ (Traced.result_collect _),
    Traced.events_bind_of_some _ (Traced.result_log _), Visit.compileEach_eq_map]
  rfl

/-- Over groups with ids of their own, compiling a layer gives the conditions of its roots, all of
them to hold, and the account of entered groups is without effect. -/
theorem compile_eq_condition (maxDepth : ℕ)
    (hids : ((groups.applicable layer).map FilterGroup.id).Nodup) :
    (groups.compile layer maxDepth).result = Predicate.combine .and
        ((groups.rootGroups layer).filterMap (groups.condition layer maxDepth 1)) ∧
      Visit.refusedOfAll (groups.visits layer maxDepth) = [] ∧
      Event.groupReachedTwice ∉ (groups.compile layer maxDepth).events := by
  have hrefused := refusedOfAll_visits hids maxDepth
  refine ⟨?_, hrefused, ?_⟩
  · rw [result_compile, ← groups_roots]
    congr 1
    exact (Forest.result_compile_visit groups layer maxDepth (maxDepth - 1)).2 _ .none 1 rfl
      hrefused
  · rw [events_compile, List.mem_append, Visit.groupReachedTwice_mem_compileEach_iff]
    simp [hrefused]

/-- A root with a child, two groups that are each the parent of the other, and an orphan. -/
def withCycle : Snapshot :=
  [((FilterGroup.empty "root" .and).addLayer 1).addFilter
      ⟨"f", false, .property (.ofCondition "p" .string .isNull)⟩,
    (((FilterGroup.empty "child" .or).addLayer 1).setParent "root").addFilter
      ⟨"f", false, .property (.ofCondition "q" .boolean .isTrue)⟩,
    ((FilterGroup.empty "one" .or).addLayer 1).setParent "other",
    ((FilterGroup.empty "other" .or).addLayer 1).setParent "one",
    ((FilterGroup.empty "orphan" .or).addLayer 1).setParent "nowhere"]

theorem compile_withCycle :
    ((withCycle.applicable 1).map FilterGroup.id).Nodup ∧
      (withCycle.compile 1 2).result = Predicate.combine .and
        ((withCycle.rootGroups 1).filterMap (withCycle.condition 1 2 1)) ∧
      Visit.refusedOfAll (withCycle.visits 1 2) = [] ∧
      Event.groupReachedTwice ∉ (withCycle.compile 1 2).events :=
  ⟨by decide, compile_eq_condition 2 (by decide)⟩

end Snapshot
end FilterForest
