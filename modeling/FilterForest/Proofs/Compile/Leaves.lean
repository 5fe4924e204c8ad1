import FilterForest.Proofs.Compile.Condition
import Mathlib.Data.Multiset.Bind

/-!
# The leaves of a compiled predicate

Joining neither loses a leaf nor takes one twice, whether it wraps its arguments or not. So the
leaves of a layer are those of the groups that the walk enters, in the order it enters them, and the
leaves of a group those of its filters. A filter that is not generated counts once; one that is
counts once for every filter it was generated from, as ids can be repeated.
-/
namespace FilterForest

open Multiset

namespace Predicate

mutual

/-- The maximal parts that are no junctions. -/
def leaves : Predicate → List Predicate
  | junction _ args => leavesOfArgs args
  | not arg => [not arg]
  | atom property test => [atom property test]

def leavesOfArgs : List Predicate → List Predicate
  | [] => []
  | arg :: rest => leaves arg ++ leavesOfArgs rest

end

theorem leavesOfArgs_eq_flatMap (args : List Predicate) :
    leavesOfArgs args = args.flatMap leaves := by
  induction args with
  | nil => rfl
  | cons arg args ih => rw [leavesOfArgs, ih, List.flatMap_cons]

/-- Joining keeps all leaves in their order. -/
theorem leaves_combine (operator : Connective) (args : List Predicate) :
    (combine operator args).toList.flatMap leaves = args.flatMap leaves := by
  match args with
  | [] => rfl
  | [arg] => rfl
  | first :: second :: rest =>
    rw [combine_cons_cons, Option.toList_some, List.flatMap_singleton, leaves,
      leavesOfArgs_eq_flatMap]

end Predicate

open Predicate

def Traced.leaves (t : Traced Predicate) : List Predicate :=
  t.result.toList.flatMap Predicate.leaves

theorem Traced.flatMap_leaves_filterMap {α : Type} (compile : α → Traced Predicate) (as : List α) :
    (as.filterMap fun a => (compile a).result).flatMap Predicate.leaves =
      as.flatMap fun a => (compile a).leaves := by
  rw [List.filterMap_eq_flatMap_toList, List.flatMap_assoc]
  rfl

/-- Going from elements to those related to them counts each of these once for every origin. -/
theorem bind_bind_filter {α β : Type} (origins elements : Multiset α) (r : α → α → Bool)
    (parts : α → Multiset β) :
    (origins.bind fun origin => (elements.filter fun a => r origin a).bind parts) =
      elements.bind fun a => origins.countP (fun origin => r origin a) • parts a := by
  have hconst : ∀ (s : Multiset α) (t : Multiset β), (s.bind fun _ => t) = s.card • t := by
    intro s t
    rw [Multiset.bind, Multiset.map_const', Multiset.join, Multiset.sum_replicate]
  calc
    _ = origins.bind fun origin => elements.bind fun a => if r origin a then parts a else 0 := by
      simp only [Multiset.bind_filter]
    _ = elements.bind fun a => origins.bind fun origin => if r origin a then parts a else 0 :=
      Multiset.bind_bind _ _
    _ = _ := by
      refine Multiset.bind_congr fun a _ => ?_
      rw [← Multiset.bind_filter, hconst, Multiset.countP_eq_card_filter]

variable (layer : LayerId)

def Filter.leaves (f : Filter) : Multiset Predicate := ↑(f.compile layer).leaves

theorem Filter.isActive_eq_false_iff {f : Filter} : f.isActive = false ↔
    f.disabled = true ∨ ∃ a, f.kind = .property a ∧ a.isEmptyNumeric = true := by
  obtain ⟨id, disabled, a | s⟩ := f
  · cases disabled <;> cases h : a.isEmptyNumeric <;> simp [isActive, skip?, h]
  · cases disabled <;> simp [isActive, skip?]

namespace FilterGroup

variable (g : FilterGroup)

/-- How often the leaves of a filter stand among those of its group. -/
def share (f : Filter) : ℕ :=
  if f.isActive then
    match f.generatedBy with
    | none => 1
    | some id => g.primaries.countP fun primary => primary.id = id
  else 0

/-- An active filter counts for itself if it was not generated, and once for each filter that it
was generated from. -/
theorem share_eq_add (f : Filter) : g.share f =
    (if f.isActive && f.generatedBy.isNone then 1 else 0) +
      g.primaries.countP fun primary => f.isActive && f.generatedBy = some primary.id := by
  unfold share
  cases f.isActive with
  | false => simp
  | true =>
    cases f.generatedBy with
    | none => simp
    | some id => simp [eq_comm]

/-- A filter counts for nothing if it is passed over, or if it was generated from no filter that
takes part. -/
theorem share_eq_zero_iff (f : Filter) : g.share f = 0 ↔ f.isActive = false ∨
    ∃ id, f.generatedBy = some id ∧ ∀ origin ∈ g.filters, origin.isActive = true →
      origin.generatedBy = none → origin.id ≠ id := by
  unfold share
  cases hactive : f.isActive with
  | false => simp
  | true =>
    cases hgenerated : f.generatedBy with
    | none => simp
    | some id => simp [primaries_eq, List.countP_eq_zero]

theorem leaves_ownConditions : (g.ownConditions layer).flatMap Predicate.leaves =
    g.primaries.flatMap fun primary => (primary.compile layer).leaves ++
      (g.generatedFrom primary.id).flatMap fun other => (other.compile layer).leaves := by
  rw [ownConditions, List.filterMap_eq_flatMap_toList, List.flatMap_assoc, ← primaries_eq]
  simp only [leaves_combine, alternatives, Traced.flatMap_leaves_filterMap, List.flatMap_cons,
    generatedFrom_eq]

theorem coe_filter_filters (p : Filter → Bool) : (↑(g.filters.filter p) : Multiset Filter) =
    (↑g.filters : Multiset Filter).filter fun f => p f = true := by
  simp

/-- The leaves of a group are those of its filters, each as often as its share is. -/
theorem coe_leaves_ownConditions :
    (↑((g.ownConditions layer).flatMap Predicate.leaves) : Multiset Predicate) =
      (↑g.filters : Multiset Filter).bind fun f => g.share f • f.leaves layer := by
  calc
    _ = (↑g.primaries : Multiset Filter).bind fun primary => primary.leaves layer +
        ((↑g.filters : Multiset Filter).filter fun f =>
          (f.isActive && f.generatedBy = some primary.id) = true).bind (Filter.leaves layer) := by
      rw [leaves_ownConditions, ← Multiset.coe_bind]
      refine Multiset.bind_congr fun primary _ => ?_
      rw [generatedFrom_eq, ← coe_filter_filters, ← Multiset.coe_add, ← Multiset.coe_bind]
      rfl
    _ = (↑g.filters : Multiset Filter).bind fun f =>
        (if (f.isActive && f.generatedBy.isNone) = true then f.leaves layer else 0) +
        (↑g.primaries : Multiset Filter).countP
          (fun primary => (f.isActive && f.generatedBy = some primary.id) = true) •
            f.leaves layer := by
      rw [Multiset.bind_add, bind_bind_filter, Multiset.bind_add, ← Multiset.bind_filter,
        ← coe_filter_filters, ← primaries_eq]
    _ = _ := by
      refine Multiset.bind_congr fun f _ => ?_
      rw [g.share_eq_add f, add_nsmul, ite_smul, one_nsmul, zero_nsmul, Multiset.coe_countP]
      simp

end FilterGroup

namespace Visit

mutual

/-- A visit has the leaves of the groups that it enters, in their order. -/
theorem leaves_compile : ∀ visit : Visit, (compile layer visit).leaves =
    visit.nodes.flatMap fun node => (node.group.ownConditions layer).flatMap Predicate.leaves
  | again node => rfl
  | cut node => by
    rw [Traced.leaves, result_compile_cut, leaves_combine, nodes, List.flatMap_singleton]
  | entered node children => by
    rw [Traced.leaves, result_compile_entered, leaves_combine, List.flatMap_append,
      Traced.flatMap_leaves_filterMap, leaves_compileEach children, nodes, List.flatMap_cons]

theorem leaves_compileEach : ∀ visits : List Visit,
    (visits.flatMap fun visit => (compile layer visit).leaves) =
      (nodesOfAll visits).flatMap fun node =>
        (node.group.ownConditions layer).flatMap Predicate.leaves
  | [] => rfl
  | visit :: rest => by
    rw [List.flatMap_cons, leaves_compile visit, leaves_compileEach rest, nodesOfAll,
      List.flatMap_append]

end

end Visit

namespace Snapshot

variable (groups : Snapshot) (maxDepth : ℕ)

theorem leaves_compile_eq_flatMap : (groups.compile layer maxDepth).leaves =
    (groups.enteredNodes layer maxDepth).flatMap fun node =>
      (node.group.ownConditions layer).flatMap Predicate.leaves := by
  rw [Traced.leaves, result_compile, leaves_combine, Traced.flatMap_leaves_filterMap,
    Visit.leaves_compileEach]
  rfl

/-- The leaves of a layer are those of the filters of the groups that are entered, each as often as
its share is. Filters that are disabled or empty have no share, nor have those that were generated
from no filter that takes part. -/
theorem coe_leaves_compile :
    (↑(groups.compile layer maxDepth).leaves : Multiset Predicate) =
        (↑(groups.enteredNodes layer maxDepth) : Multiset Node).bind (fun node =>
          (↑node.group.filters : Multiset Filter).bind fun f =>
            node.group.share f • f.leaves layer) ∧
      ∀ (g : FilterGroup) (f : Filter), g.share f = 0 ↔
        (f.disabled = true ∨ ∃ a, f.kind = .property a ∧ a.isEmptyNumeric = true) ∨
          ∃ id, f.generatedBy = some id ∧ ∀ origin ∈ g.filters, origin.isActive = true →
            origin.generatedBy = none → origin.id ≠ id := by
  refine ⟨?_, fun g f => ?_⟩
  · rw [leaves_compile_eq_flatMap, ← Multiset.coe_bind]
    exact Multiset.bind_congr fun node _ => node.group.coe_leaves_ownConditions layer
  · rw [g.share_eq_zero_iff f, Filter.isActive_eq_false_iff]

end Snapshot
end FilterForest
