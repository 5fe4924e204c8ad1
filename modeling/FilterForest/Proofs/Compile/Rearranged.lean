import FilterForest.Predicate.Cql
import FilterForest.Proofs.Compile.Layer
import FilterForest.Proofs.Predicate.Truth

/-!
# The order of groups and filters

A snapshot asks the same whatever the order of its groups and of the filters in each of them. The
predicates differ in the order of their arguments, but not in what they are true of. Ids must not be
repeated: among groups that share one, it is the order that tells which of them a walk enters first,
and from where.
-/
namespace FilterForest

/-- Groups that have the same filters in some order, and agree in all else. -/
structure FilterGroup.Rearranges (g g' : FilterGroup) : Prop where
  id : g.id = g'.id
  layers : g.layers = g'.layers
  filters : g.filters.Perm g'.filters
  operator : g.operator = g'.operator
  parent : g.parent = g'.parent

/-- Lists of groups that have the same groups in some order, each with its filters in some order. -/
def Snapshot.Rearranges (groups groups' : Snapshot) : Prop :=
  ∃ reordered : Snapshot, groups.Perm reordered ∧
    List.Forall₂ FilterGroup.Rearranges reordered groups'

namespace FilterGroup.Rearranges

variable {g g' : FilterGroup} {layer : LayerId}

theorem alternatives (h : g.Rearranges g') (f : Filter) :
    (g.alternatives layer f).Perm (g'.alternatives layer f) :=
  ((h.filters.filter _).cons f).filterMap _

theorem ownConditions (h : g.Rearranges g') (truth : String → Test → Bool) :
    ((g.ownConditions layer).map (Predicate.holds truth)).Perm
      ((g'.ownConditions layer).map (Predicate.holds truth)) := by
  have hjoined : ∀ f, (Predicate.combine .or (g.alternatives layer f)).map (Predicate.holds truth) =
      (Predicate.combine .or (g'.alternatives layer f)).map (Predicate.holds truth) := by
    intro f
    rw [Predicate.map_holds_combine, Predicate.map_holds_combine]
    exact Connective.joined?_perm .or ((h.alternatives f).map _)
  simp only [FilterGroup.ownConditions, List.map_filterMap, hjoined]
  exact (h.filters.filter _).filterMap _

end FilterGroup.Rearranges

namespace Snapshot

variable {groups groups' : Snapshot} {layer : LayerId} {maxDepth : ℕ}

theorem Rearranges.filter (h : groups.Rearranges groups') {keep keep' : FilterGroup → Bool}
    (hkeep : ∀ g g', g.Rearranges g' → keep g = keep' g') :
    Rearranges (groups.filter keep) (groups'.filter keep') := by
  obtain ⟨reordered, hperm, hrearranges⟩ := h
  refine ⟨reordered.filter keep, hperm.filter _, List.rel_filter ?_ hrearranges⟩
  intro g g' hg
  simp only [hkeep g g' hg]

/-- What is computed from each group alone, filters in any order, is the same in some order. -/
theorem Rearranges.filterMap {β : Type} (h : groups.Rearranges groups')
    {f f' : FilterGroup → Option β} (hf : ∀ g g', g.Rearranges g' → f g = f' g') :
    (groups.filterMap f).Perm (groups'.filterMap f') := by
  obtain ⟨reordered, hperm, hrearranges⟩ := h
  refine (hperm.filterMap f).trans (.of_eq ?_)
  clear hperm
  induction hrearranges with
  | nil => rfl
  | cons hg _ ih => rw [List.filterMap_cons, List.filterMap_cons, hf _ _ hg, ih]

theorem Rearranges.applicable (h : groups.Rearranges groups') (layer : LayerId) :
    (groups.applicable layer).Rearranges (groups'.applicable layer) := by
  refine h.filter fun g g' hg => ?_
  rw [FilterGroup.appliesTo, FilterGroup.appliesTo, hg.layers]

theorem Rearranges.rootGroups (h : groups.Rearranges groups') (layer : LayerId) :
    Rearranges (groups.rootGroups layer) (groups'.rootGroups layer) :=
  (h.applicable layer).filter fun g g' hg => by rw [hg.parent]

theorem Rearranges.childGroups (h : groups.Rearranges groups') (layer : LayerId)
    {g g' : FilterGroup} (hg : g.Rearranges g') :
    Rearranges (groups.childGroups layer g) (groups'.childGroups layer g') :=
  (h.applicable layer).filter fun child child' hchild => by rw [hchild.parent, hg.id]

theorem Rearranges.nodup_ids (h : groups.Rearranges groups')
    (hids : (groups.map FilterGroup.id).Nodup) : (groups'.map FilterGroup.id).Nodup := by
  obtain ⟨reordered, hperm, hrearranges⟩ := h
  have heq : reordered.map FilterGroup.id = groups'.map FilterGroup.id :=
    map_eq_map_of_forall₂ (fun _ _ hg => hg.id) hrearranges
  exact heq ▸ (hperm.map _).nodup_iff.mp hids

/-- The conditions of a group are true of the same at every depth. The induction is on the levels
that are left below it. -/
theorem Rearranges.condition (h : groups.Rearranges groups') (truth : String → Test → Bool)
    {depth : ℕ} {g g' : FilterGroup} (hg : g.Rearranges g') :
    (groups.condition layer maxDepth depth g).map (Predicate.holds truth) =
      (groups'.condition layer maxDepth depth g').map (Predicate.holds truth) := by
  induction hlevels : maxDepth - depth generalizing depth g g' with
  | zero =>
    rw [condition_of_le (by omega), condition_of_le (by omega), Predicate.map_holds_combine,
      Predicate.map_holds_combine, hg.operator]
    exact Connective.joined?_perm _ (hg.ownConditions truth)
  | succ levels ih =>
    rw [condition_of_lt (by omega), condition_of_lt (by omega), Predicate.map_holds_combine,
      Predicate.map_holds_combine, hg.operator, List.map_append, List.map_append,
      List.map_filterMap, List.map_filterMap]
    refine Connective.joined?_perm _ ((hg.ownConditions truth).append ?_)
    exact (h.childGroups layer hg).filterMap fun child child' hchild => ih hchild (by omega)

theorem Rearranges.map_holds_compile (h : groups.Rearranges groups') (maxDepth : ℕ)
    (hids : ((groups.applicable layer).map FilterGroup.id).Nodup) (truth : String → Test → Bool) :
    (groups.compile layer maxDepth).result.map (Predicate.holds truth) =
      (groups'.compile layer maxDepth).result.map (Predicate.holds truth) := by
  rw [result_compile_eq_combine, result_compile_eq_combine, Predicate.map_holds_combine,
    Predicate.map_holds_combine, rootPredicates_eq_conditions maxDepth hids,
    rootPredicates_eq_conditions maxDepth ((h.applicable layer).nodup_ids hids),
    List.map_filterMap, List.map_filterMap]
  refine Connective.joined?_perm _ ((h.rootGroups layer).filterMap fun root root' hroot => ?_)
  exact h.condition truth hroot

/-- Whatever the order of groups and of their filters, a layer compiles to something or to nothing,
and to what is true of the same. -/
theorem compile_of_rearranges (maxDepth : ℕ)
    (hids : ((groups.applicable layer).map FilterGroup.id).Nodup)
    (h : groups.Rearranges groups') :
    ((groups.compile layer maxDepth).result = none ↔
        (groups'.compile layer maxDepth).result = none) ∧
      ∀ p p', (groups.compile layer maxDepth).result = some p →
        (groups'.compile layer maxDepth).result = some p' →
        ∀ truth, p.holds truth = p'.holds truth := by
  have hmap := h.map_holds_compile maxDepth hids
  constructor
  · rw [← Option.map_eq_none_iff (f := Predicate.holds fun _ _ => true), hmap,
      Option.map_eq_none_iff]
  · intro p p' hp hp' truth
    have htruth := hmap truth
    rw [hp, hp', Option.map_some, Option.map_some] at htruth
    exact Option.some.inj htruth

def nullFilter (id property : String) (origin : Option String) : Filter :=
  ⟨id, false, .property { AttributeFilter.ofCondition property .string .isNull with
    generatedBy := origin }⟩

/-- A root and its child, the root with a filter that has an alternative. -/
def parentFirst : Snapshot :=
  [⟨"root", .ofList [1], [nullFilter "f" "p" none, nullFilter "g" "q" (some "f"),
      nullFilter "h" "r" none], .and, none⟩,
    ⟨"child", .ofList [1], [nullFilter "f" "s" none], .or, some "root"⟩]

/-- The same with the child before the root, and the alternative before its origin. -/
def childFirst : Snapshot :=
  [⟨"child", .ofList [1], [nullFilter "f" "s" none], .or, some "root"⟩,
    ⟨"root", .ofList [1], [nullFilter "g" "q" (some "f"), nullFilter "h" "r" none,
      nullFilter "f" "p" none], .and, none⟩]

theorem rearranges_childFirst : parentFirst.Rearranges childFirst := by
  refine ⟨_, .swap _ _ [], .cons ⟨rfl, rfl, .refl _, rfl, rfl⟩ ?_⟩
  refine .cons ⟨rfl, rfl, ?_, rfl, rfl⟩ .nil
  exact (List.Perm.swap _ _ _).trans ((List.Perm.swap _ _ []).cons _)

theorem compile_childFirst :
    ((parentFirst.applicable 1).map FilterGroup.id).Nodup ∧ parentFirst.Rearranges childFirst ∧
      (∀ p p', (parentFirst.compile 1 2).result = some p →
        (childFirst.compile 1 2).result = some p' → ∀ truth, p.holds truth = p'.holds truth) ∧
      (parentFirst.compile 1 2).result.map Predicate.cql =
        some "(((p IS NULL) OR (q IS NULL)) AND (r IS NULL) AND (s IS NULL))".toList ∧
      (childFirst.compile 1 2).result.map Predicate.cql =
        some "((r IS NULL) AND ((p IS NULL) OR (q IS NULL)) AND (s IS NULL))".toList :=
  ⟨by decide, rearranges_childFirst,
    (compile_of_rearranges 2 (by decide) rearranges_childFirst).2, by decide +kernel,
    by decide +kernel⟩

end Snapshot
end FilterForest
