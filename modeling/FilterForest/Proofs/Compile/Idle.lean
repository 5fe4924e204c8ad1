import FilterForest.Predicate.Cql
import FilterForest.Proofs.Compile.Layer
import FilterForest.Proofs.Compile.Leaves

/-!
# Filters that ask for nothing

A filter is idle in its group if it is passed over, or if it was generated from another filter and
either no filter that takes part has that id or it compiles to nothing. Idle filters can be left
out, in any groups and any of them at once: none of them is a primary filter, so that those that are
left are idle in what is left of the group exactly if they were before.
-/
namespace FilterForest

/-- Lists of which the second lacks some of the idle elements of the first. -/
inductive LeavesOut {α : Type} (idle : α → Prop) : List α → List α → Prop
  | nil : LeavesOut idle [] []
  | keep {as bs : List α} (a : α) (h : LeavesOut idle as bs) : LeavesOut idle (a :: as) (a :: bs)
  | leave {as bs : List α} {a : α} (ha : idle a) (h : LeavesOut idle as bs) :
    LeavesOut idle (a :: as) bs

namespace LeavesOut

variable {α β : Type} {idle : α → Prop} {as bs : List α}

theorem filterMap {f : α → Option β} (hf : ∀ a, idle a → f a = none) (h : LeavesOut idle as bs) :
    bs.filterMap f = as.filterMap f := by
  induction h with
  | nil => rfl
  | keep a _ ih => rw [List.filterMap_cons, List.filterMap_cons, ih]
  | leave ha _ ih => rw [List.filterMap_cons_none (hf _ ha), ih]

theorem filter {p : α → Bool} (hp : ∀ a, idle a → p a = false) (h : LeavesOut idle as bs) :
    bs.filter p = as.filter p := by
  rw [← List.filterMap_eq_filter]
  exact h.filterMap fun a ha => by simp [hp a ha]

theorem filter_not (idle : α → Prop) [DecidablePred idle] (as : List α) :
    LeavesOut idle as (as.filter fun a => ¬ idle a) := by
  induction as with
  | nil => exact .nil
  | cons a as ih =>
    by_cases ha : idle a
    · rw [List.filter_cons_of_neg (by simpa using ha)]
      exact .leave ha ih
    · rw [List.filter_cons_of_pos (by simpa using ha)]
      exact .keep a ih

end LeavesOut

namespace FilterGroup

variable (layer : LayerId) (g : FilterGroup)

/-- The filters of a group that ask for nothing. -/
inductive IsIdle (f : Filter) : Prop
  | disabled (h : f.disabled = true)
  | empty {a : AttributeFilter} (hkind : f.kind = .property a) (htype : a.type.isNumeric = true)
    (hvalues : a.values = []) (hnull : a.condition ≠ .isNull)
    (hunique : a.condition ≠ .uniqueValues)
  | detached {id : String} (hgenerated : f.generatedBy = some id)
    (hnone : ∀ primary ∈ g.filters, primary.isActive = true → primary.generatedBy = none →
      primary.id ≠ id)
  | mute {id : String} (hgenerated : f.generatedBy = some id)
    (hcompile : (f.compile layer).result = none)

variable {layer g} {f : Filter}

theorem mem_primaries :
    f ∈ g.primaries ↔ f ∈ g.filters ∧ f.isActive = true ∧ f.generatedBy = none := by
  simp [primaries_eq]

/-- A filter is idle if it is passed over, or if it was generated and adds nothing to any filter. -/
theorem isIdle_iff : g.IsIdle layer f ↔ f.isActive = false ∨
    ∃ id ∈ f.generatedBy,
      (∀ primary ∈ g.primaries, primary.id ≠ id) ∨ (f.compile layer).result = none := by
  constructor
  · rintro (h | ⟨hkind, htype, hvalues, hnull, hunique⟩ | ⟨hgenerated, hnone⟩ |
      ⟨hgenerated, hcompile⟩)
    · exact .inl (Filter.isActive_eq_false_iff.mpr (.inl h))
    · refine .inl (Filter.isActive_eq_false_iff.mpr (.inr ⟨_, hkind, ?_⟩))
      simp [AttributeFilter.isEmptyNumeric, htype, hvalues, hnull, hunique]
    · refine .inr ⟨_, hgenerated, .inl fun primary hprimary => ?_⟩
      obtain ⟨hmem, hactive, horigin⟩ := mem_primaries.mp hprimary
      exact hnone primary hmem hactive horigin
    · exact .inr ⟨_, hgenerated, .inr hcompile⟩
  · rintro (hactive | ⟨id, hgenerated, hnone | hcompile⟩)
    · rcases Filter.isActive_eq_false_iff.mp hactive with h | ⟨a, hkind, hempty⟩
      · exact .disabled h
      · simp only [AttributeFilter.isEmptyNumeric, Bool.and_eq_true, List.isEmpty_iff,
          decide_eq_true_eq] at hempty
        obtain ⟨⟨⟨htype, hvalues⟩, hnull⟩, hunique⟩ := hempty
        exact .empty hkind htype hvalues hnull hunique
    · exact .detached hgenerated fun primary hmem hactive horigin =>
        hnone primary (mem_primaries.mpr ⟨hmem, hactive, horigin⟩)
    · exact .mute hgenerated hcompile

instance : DecidablePred (g.IsIdle layer) := fun _ => decidable_of_iff _ isIdle_iff.symm

theorem IsIdle.not_primary (h : g.IsIdle layer f) :
    (f.isActive && f.generatedBy.isNone) = false := by
  rcases isIdle_iff.mp h with hactive | ⟨id, hgenerated, -⟩
  · rw [hactive, Bool.false_and]
  · rw [Option.mem_def.mp hgenerated, Option.isNone_some, Bool.and_false]

theorem IsIdle.no_alternative (h : g.IsIdle layer f) {primary : Filter}
    (hprimary : primary ∈ g.primaries) :
    (if f.isActive && f.generatedBy = some primary.id then (f.compile layer).result else none) =
      none := by
  rcases isIdle_iff.mp h with hactive | ⟨id, hgenerated, hnone | hcompile⟩
  · rw [hactive, Bool.false_and, if_neg Bool.false_ne_true]
  · have hid := hnone primary hprimary
    rw [Option.mem_def.mp hgenerated]
    simp [Ne.symm hid]
  · rw [hcompile, ite_self]

variable (layer g)

/-- Groups of which the second lacks some of the idle filters of the first. -/
structure LeavesOutIdle (g' : FilterGroup) : Prop where
  id : g'.id = g.id
  layers : g'.layers = g.layers
  filters : LeavesOut (g.IsIdle layer) g.filters g'.filters
  operator : g'.operator = g.operator
  parent : g'.parent = g.parent

/-- A group without its idle filters. -/
def trimmed : FilterGroup := { g with filters := g.filters.filter fun f => ¬ g.IsIdle layer f }

variable {layer g} {g' : FilterGroup}

theorem leavesOutIdle_trimmed : g.LeavesOutIdle layer (g.trimmed layer) :=
  ⟨rfl, rfl, .filter_not _ _, rfl, rfl⟩

namespace LeavesOutIdle

theorem primaries (h : g.LeavesOutIdle layer g') : g'.primaries = g.primaries := by
  rw [primaries_eq, primaries_eq, h.filters.filter fun f hf => hf.not_primary]

theorem alternatives (h : g.LeavesOutIdle layer g') {primary : Filter}
    (hprimary : primary ∈ g.primaries) :
    g'.alternatives layer primary = g.alternatives layer primary := by
  simp only [FilterGroup.alternatives, List.filterMap_cons, List.filterMap_filter]
  rw [h.filters.filterMap fun f hf => hf.no_alternative hprimary]

/-- Without idle filters a group has the same conditions of its own. -/
theorem ownConditions (h : g.LeavesOutIdle layer g') :
    g'.ownConditions layer = g.ownConditions layer := by
  rw [FilterGroup.ownConditions, FilterGroup.ownConditions, ← primaries_eq, ← primaries_eq,
    h.primaries]
  exact List.filterMap_congr fun primary hprimary => by rw [h.alternatives hprimary]

theorem isIdle_iff (h : g.LeavesOutIdle layer g') (f : Filter) :
    g'.IsIdle layer f ↔ g.IsIdle layer f := by
  rw [FilterGroup.isIdle_iff, FilterGroup.isIdle_iff, h.primaries]

/-- The same is left when the other idle filters are left out as well. -/
theorem trimmed (h : g.LeavesOutIdle layer g') : g'.trimmed layer = g.trimmed layer := by
  simp only [FilterGroup.trimmed, h.id, h.layers, h.operator, h.parent, h.isIdle_iff]
  rw [h.filters.filter fun f hf => by simpa using hf]

end LeavesOutIdle

end FilterGroup

namespace Visit

variable (layer : LayerId) {f : Node → Node}

mutual

/-- What a record compiles to depends on the operators and the own conditions of its groups. -/
theorem result_compile_map
    (hoperator : ∀ node, (f node).group.operator = node.group.operator)
    (hown : ∀ node, (f node).group.ownConditions layer = node.group.ownConditions layer) :
    ∀ visit : Visit, (compile layer (visit.map f)).result = (compile layer visit).result
  | again node => rfl
  | cut node => by rw [map, result_compile_cut, result_compile_cut, hoperator, hown]
  | entered node children => by
    rw [map, result_compile_entered, result_compile_entered, hoperator, hown,
      filterMap_result_mapAll hoperator hown children]

theorem filterMap_result_mapAll
    (hoperator : ∀ node, (f node).group.operator = node.group.operator)
    (hown : ∀ node, (f node).group.ownConditions layer = node.group.ownConditions layer) :
    ∀ visits : List Visit, (mapAll f visits).filterMap (fun visit => (compile layer visit).result) =
      visits.filterMap fun visit => (compile layer visit).result
  | [] => rfl
  | visit :: rest => by
    rw [mapAll, List.filterMap_cons, List.filterMap_cons, result_compile_map hoperator hown visit,
      filterMap_result_mapAll hoperator hown rest]

end

end Visit

namespace Snapshot

variable {layer : LayerId} {change : FilterGroup → FilterGroup}

/-- Groups can be changed in what neither links them nor makes a condition of their own. -/
theorem result_compile_map (groups : Snapshot) (hid : ∀ g, (change g).id = g.id)
    (hlayers : ∀ g, (change g).layers = g.layers) (hparent : ∀ g, (change g).parent = g.parent)
    (hoperator : ∀ g, (change g).operator = g.operator)
    (hown : ∀ g, (change g).ownConditions layer = g.ownConditions layer) (maxDepth : ℕ) :
    (Snapshot.compile (groups.map change) layer maxDepth).result =
      (groups.compile layer maxDepth).result := by
  have hwalk : visits (groups.map change) layer maxDepth =
      Visit.mapAll (Node.mapGroup change) (groups.visits layer maxDepth) := by
    rw [visits, Forest.ofSnapshot_map hlayers]
    exact (Forest.matches_mapGroup hid hparent).walk (Forest.roots_mapGroup hparent)
      (fun _ _ => trivial) maxDepth
  rw [result_compile, result_compile, hwalk, Visit.filterMap_result_mapAll layer
    (fun node => hoperator node.group) (fun node => hown node.group)]

/-- Snapshots of which the second lacks some of the idle filters of the first. -/
def LeavesOutIdle (layer : LayerId) (groups groups' : Snapshot) : Prop :=
  List.Forall₂ (FilterGroup.LeavesOutIdle layer) groups groups'

theorem result_compile_trimmed (groups : Snapshot) (maxDepth : ℕ) :
    (Snapshot.compile (groups.map (FilterGroup.trimmed layer)) layer maxDepth).result =
      (groups.compile layer maxDepth).result := by
  refine groups.result_compile_map ?_ ?_ ?_ ?_ ?_ maxDepth
  · exact fun g => FilterGroup.leavesOutIdle_trimmed.id
  · exact fun g => FilterGroup.leavesOutIdle_trimmed.layers
  · exact fun g => FilterGroup.leavesOutIdle_trimmed.parent
  · exact fun g => FilterGroup.leavesOutIdle_trimmed.operator
  · exact fun g => FilterGroup.leavesOutIdle_trimmed.ownConditions

/-- A layer compiles to the same without any of the filters that are idle in their groups. -/
theorem result_compile_of_leavesOutIdle {groups groups' : Snapshot}
    (h : groups.LeavesOutIdle layer groups') (maxDepth : ℕ) :
    (groups'.compile layer maxDepth).result = (groups.compile layer maxDepth).result := by
  have htrimmed : groups.map (FilterGroup.trimmed layer) =
      groups'.map (FilterGroup.trimmed layer) :=
    map_eq_map_of_forall₂ (fun _ _ hg => hg.trimmed.symm) h
  rw [← result_compile_trimmed groups', ← htrimmed, result_compile_trimmed]

/-- A root with a disabled filter, an alternative to it, an alternative to that alternative and a
filter on a size without values, and a child with an alternative that lacks a value. -/
def cluttered : Snapshot :=
  let asks (property : String) : AttributeFilter := .ofCondition property .string .isNull
  [⟨"root", .ofList [1],
    [⟨"old", true, .property (asks "p")⟩,
      ⟨"new", false, .property ((asks "q").generateFrom "old")⟩,
      ⟨"newer", false, .property ((asks "r").generateFrom "new")⟩,
      ⟨"size", false, .property (.ofCondition "s" (.numeric .integer) (.comparison .less))⟩,
      ⟨"main", false, .property (asks "t")⟩], .and, none⟩,
    ⟨"child", .ofList [1],
    [⟨"mute", false,
        .property ((AttributeFilter.ofCondition "u" .string .like).generateFrom "main")⟩,
      ⟨"main", false, .property (.ofCondition "v" .string .like)⟩,
      ⟨"other", false, .property ((asks "w").generateFrom "main")⟩], .or, some "root"⟩]

/-- The same without the idle filters, but for the filter on a size. -/
def tidied : Snapshot :=
  cluttered.map fun g =>
    { g with filters := g.filters.filter fun f => f.id ∈ ["size", "main", "other"] }

theorem result_compile_cluttered :
    cluttered.LeavesOutIdle 1 tidied ∧
      (tidied.compile 1 4).result = (cluttered.compile 1 4).result ∧
      (cluttered.compile 1 4).result.map Predicate.cql =
        some "((t IS NULL) AND (w IS NULL))".toList := by
  have hleaves : cluttered.LeavesOutIdle 1 tidied := by
    refine .cons ⟨rfl, rfl, ?_, rfl, rfl⟩ (.cons ⟨rfl, rfl, ?_, rfl, rfl⟩ .nil)
    · exact .leave (.disabled rfl) (.leave (.detached rfl (by decide))
        (.leave (.detached rfl (by decide)) (.keep _ (.keep _ .nil))))
    · exact .leave (.mute rfl (by rfl)) (.keep _ (.keep _ .nil))
  exact ⟨hleaves, result_compile_of_leavesOutIdle hleaves 4, by decide +kernel⟩

end Snapshot
end FilterForest
