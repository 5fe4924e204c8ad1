import FilterForest.Predicate.Cql
import FilterForest.Proofs.Forest.Rooted
import FilterForest.Proofs.Compile.Condition

/-!
# The depth limit

Where no two groups share an id, a group has one chain of parents, and with a depth limit a layer
compiles to what it compiles to without the groups whose chain is longer. Orphans, cycles and groups
below groups of other layers have no chain up to a root, so that no limit reaches them.
-/
namespace FilterForest
namespace Snapshot

/-- A group with a chain of so many groups of a layer, itself included, from it up to a root. -/
inductive HasDepth (groups : Snapshot) (layer : LayerId) : FilterGroup → ℕ → Prop
  | root {g} : g ∈ groups.rootGroups layer → HasDepth groups layer g 1
  | child {parent g depth} : HasDepth groups layer parent depth →
      g ∈ groups.childGroups layer parent → HasDepth groups layer g (depth + 1)

/-- A group whose chain up to a root has more groups than a limit. -/
def IsDeeperThan (groups : Snapshot) (layer : LayerId) (limit : ℕ) (g : FilterGroup) : Prop :=
  ∃ depth, limit < depth ∧ groups.HasDepth layer g depth

variable {groups : Snapshot} {layer : LayerId} {g : FilterGroup} {limit depth : ℕ}

theorem HasDepth.mem (h : groups.HasDepth layer g depth) : g ∈ groups.applicable layer := by
  cases h with
  | root hroot => exact (mem_rootGroups.mp hroot).1
  | child _ hchild => exact (mem_childGroups.mp hchild).1

theorem HasDepth.pos (h : groups.HasDepth layer g depth) : 0 < depth := by
  cases h <;> omega

theorem isDeeperThan_zero_iff :
    groups.IsDeeperThan layer 0 g ↔ IsRooted (groups.applicable layer) g := by
  constructor
  · rintro ⟨depth, -, h⟩
    induction h with
    | root hroot => exact .root (mem_rootGroups.mp hroot).1 (mem_rootGroups.mp hroot).2
    | child _ hchild ih =>
      obtain ⟨hg, hparent⟩ := mem_childGroups.mp hchild
      exact .child ih hg hparent
  · intro h
    induction h with
    | root hg hnone => exact ⟨1, Nat.one_pos, .root (mem_rootGroups.mpr ⟨hg, hnone⟩)⟩
    | child _ hg hparent ih =>
      obtain ⟨depth, hpos, hdepth⟩ := ih
      exact ⟨depth + 1, Nat.succ_pos _, .child hdepth (mem_childGroups.mpr ⟨hg, hparent⟩)⟩

theorem isDeeperThan_succ_iff : groups.IsDeeperThan layer (limit + 1) g ↔
    ∃ parent ∈ groups.applicable layer, g ∈ groups.childGroups layer parent ∧
      groups.IsDeeperThan layer limit parent := by
  constructor
  · rintro ⟨depth, hlt, h⟩
    cases h with
    | root => omega
    | @child parent _ depth hparent hchild =>
      exact ⟨parent, hparent.mem, hchild, depth, by omega, hparent⟩
  · rintro ⟨parent, -, hchild, depth, hlt, hparent⟩
    exact ⟨depth + 1, by omega, .child hparent hchild⟩

def decidableIsDeeperThan (groups : Snapshot) (layer : LayerId) :
    ∀ limit g, Decidable (groups.IsDeeperThan layer limit g)
  | 0, _ => decidable_of_iff _ isDeeperThan_zero_iff.symm
  | limit + 1, _ =>
    have : DecidablePred (groups.IsDeeperThan layer limit) :=
      decidableIsDeeperThan groups layer limit
    decidable_of_iff _ isDeeperThan_succ_iff.symm

instance : DecidablePred (groups.IsDeeperThan layer limit) :=
  decidableIsDeeperThan groups layer limit

/-- A snapshot without the groups of a layer that are deeper than a limit. -/
def pruned (groups : Snapshot) (layer : LayerId) (limit : ℕ) : Snapshot :=
  groups.filter fun g => ¬ groups.IsDeeperThan layer limit g

theorem HasDepth.unique (hids : ((groups.applicable layer).map FilterGroup.id).Nodup)
    {depth' : ℕ} (h : groups.HasDepth layer g depth) (h' : groups.HasDepth layer g depth') :
    depth = depth' := by
  induction h generalizing depth' with
  | root hroot =>
    cases h' with
    | root _ => rfl
    | child _ hchild =>
      exact nomatch (mem_rootGroups.mp hroot).2.symm.trans (mem_childGroups.mp hchild).2
  | @child parent g depth hparent hchild ih =>
    have hname := (mem_childGroups.mp hchild).2
    cases h' with
    | root hroot => exact nomatch (mem_rootGroups.mp hroot).2.symm.trans hname
    | @child parent' _ depth' hparent' hchild' =>
      have hid := Option.some.inj (hname.symm.trans (mem_childGroups.mp hchild').2)
      obtain rfl := List.inj_on_of_nodup_map hids hparent.mem hparent'.mem hid
      rw [ih hparent']

theorem HasDepth.exists_of_le (h : groups.HasDepth layer g depth) {n : ℕ} (hpos : 0 < n)
    (hle : n ≤ depth) : ∃ ancestor, groups.HasDepth layer ancestor n := by
  induction h with
  | @root g hroot => exact ⟨g, by rw [show n = 1 by omega]; exact .root hroot⟩
  | @child parent g depth hparent hchild ih =>
    by_cases heq : n = depth + 1
    · exact ⟨g, heq ▸ .child hparent hchild⟩
    · exact ih (by omega)

theorem not_isDeeperThan_of_le (hids : ((groups.applicable layer).map FilterGroup.id).Nodup)
    (h : groups.HasDepth layer g depth) (hle : depth ≤ limit) :
    ¬ groups.IsDeeperThan layer limit g := by
  rintro ⟨depth', hlt, h'⟩
  have := h.unique hids h'
  omega

theorem applicable_pruned : (groups.pruned layer limit).applicable layer =
    (groups.applicable layer).filter fun g => ¬ groups.IsDeeperThan layer limit g :=
  List.filter_comm _ _ _

theorem childGroups_pruned (parent : FilterGroup) :
    (groups.pruned layer limit).childGroups layer parent =
      (groups.childGroups layer parent).filter fun g => ¬ groups.IsDeeperThan layer limit g := by
  rw [childGroups, applicable_pruned, List.filter_comm]
  rfl

theorem rootGroups_pruned (hids : ((groups.applicable layer).map FilterGroup.id).Nodup)
    (hpos : 1 ≤ limit) : (groups.pruned layer limit).rootGroups layer =
      groups.rootGroups layer := by
  rw [rootGroups, applicable_pruned, List.filter_comm, ← rootGroups, List.filter_eq_self]
  exact fun root hroot => decide_eq_true (not_isDeeperThan_of_le hids (.root hroot) hpos)

/-- A group at the limit loses all its children, and a group above it none. -/
theorem childGroups_pruned_of_depth (hids : ((groups.applicable layer).map FilterGroup.id).Nodup)
    (h : groups.HasDepth layer g depth) : (groups.pruned layer limit).childGroups layer g =
      if depth < limit then groups.childGroups layer g else [] := by
  rw [childGroups_pruned]
  split
  · next hlt =>
    rw [List.filter_eq_self]
    exact fun child hchild => decide_eq_true (not_isDeeperThan_of_le hids (h.child hchild) hlt)
  · next hge =>
    rw [List.filter_eq_nil_iff]
    intro child hchild
    simp only [decide_eq_true_eq, not_not]
    exact ⟨depth + 1, by omega, h.child hchild⟩

/-- Within the limit a group asks the same of the pruned snapshot, with any limit that is not
smaller. The induction is on the levels that are left below the group. -/
theorem HasDepth.condition_pruned {limit' : ℕ}
    (hids : ((groups.applicable layer).map FilterGroup.id).Nodup)
    (h : groups.HasDepth layer g depth) (hle : depth ≤ limit) (hlimit : limit ≤ limit') :
    (groups.pruned layer limit).condition layer limit' depth g =
      groups.condition layer limit depth g := by
  induction hlevels : limit - depth generalizing depth g with
  | zero =>
    have hnone : (groups.pruned layer limit).childGroups layer g = [] := by
      rw [childGroups_pruned_of_depth hids h, if_neg (by omega)]
    rw [condition, hnone, List.filterMap_nil, ite_self, List.append_nil, condition_of_le (by omega)]
  | succ levels ih =>
    rw [condition_of_lt (by omega), condition_of_lt (by omega),
      childGroups_pruned_of_depth hids h, if_pos (by omega)]
    have hchildren : ∀ child ∈ groups.childGroups layer g,
        (groups.pruned layer limit).condition layer limit' (depth + 1) child =
          groups.condition layer limit (depth + 1) child :=
      fun child hchild => ih (h.child hchild) (by omega) (by omega)
    rw [List.filterMap_congr hchildren]

theorem result_compile_pruned {limit' : ℕ}
    (hids : ((groups.applicable layer).map FilterGroup.id).Nodup) (hpos : 1 ≤ limit)
    (hlimit : limit ≤ limit') : ((groups.pruned layer limit).compile layer limit').result =
      (groups.compile layer limit).result := by
  have hids' : (((groups.pruned layer limit).applicable layer).map FilterGroup.id).Nodup := by
    rw [applicable_pruned]
    exact hids.sublist (List.filter_sublist.map _)
  rw [result_compile_eq_combine, result_compile_eq_combine, rootPredicates_eq_conditions _ hids,
    rootPredicates_eq_conditions _ hids', rootGroups_pruned hids hpos]
  congr 1
  exact List.filterMap_congr fun root hroot =>
    HasDepth.condition_pruned hids (.root hroot) hpos hlimit

/-- A group with descendants more than some levels below its children. -/
def HasDescendants (groups : Snapshot) (layer : LayerId) : ℕ → FilterGroup → Prop
  | 0, g => groups.childGroups layer g ≠ []
  | levels + 1, g => ∃ child ∈ groups.childGroups layer g, HasDescendants groups layer levels child

theorem HasDepth.of_hasDescendants {levels : ℕ} (h : groups.HasDepth layer g depth)
    (hbelow : groups.HasDescendants layer levels g) :
    ∃ descendant, groups.HasDepth layer descendant (depth + levels + 1) := by
  induction levels generalizing g depth with
  | zero =>
    obtain ⟨child, rest, hcons⟩ := List.exists_cons_of_ne_nil hbelow
    exact ⟨child, h.child (hcons ▸ List.mem_cons_self)⟩
  | succ levels ih =>
    obtain ⟨child, hchild, hbelow⟩ := hbelow
    obtain ⟨descendant, hdepth⟩ := ih (h.child hchild) hbelow
    have hsum : depth + 1 + levels + 1 = depth + (levels + 1) + 1 := by omega
    exact ⟨descendant, hsum ▸ hdepth⟩

/-- The ancestors of a group have it among their descendants. -/
theorem HasDepth.exists_hasDescendants {levels : ℕ} (hpos : 0 < depth)
    (h : groups.HasDepth layer g (depth + levels + 1)) :
    ∃ ancestor, groups.HasDepth layer ancestor depth ∧
      groups.HasDescendants layer levels ancestor := by
  induction levels generalizing depth with
  | zero =>
    cases h with
    | root => omega
    | child hparent hchild => exact ⟨_, hparent, List.ne_nil_of_mem hchild⟩
  | succ levels ih =>
    have hsum : depth + (levels + 1) + 1 = depth + 1 + levels + 1 := by omega
    obtain ⟨ancestor, hdepth, hbelow⟩ := ih (Nat.succ_pos depth) (hsum ▸ h)
    cases hdepth with
    | root => omega
    | child hparent hchild => exact ⟨_, hparent, ancestor, hchild, hbelow⟩

theorem exists_hasDescendants_iff (hpos : 1 ≤ limit) :
    (∃ root ∈ groups.rootGroups layer, groups.HasDescendants layer (limit - 1) root) ↔
      ∃ g, groups.IsDeeperThan layer limit g := by
  constructor
  · rintro ⟨root, hroot, hbelow⟩
    obtain ⟨descendant, hdepth⟩ := (HasDepth.root hroot).of_hasDescendants hbelow
    exact ⟨descendant, _, by omega, hdepth⟩
  · rintro ⟨g, depth, hlt, h⟩
    obtain ⟨top, htop⟩ := h.exists_of_le (n := 1 + (limit - 1) + 1) (by omega) (by omega)
    obtain ⟨root, hroot, hbelow⟩ := htop.exists_hasDescendants Nat.one_pos
    cases hroot with
    | root hroot => exact ⟨root, hroot, hbelow⟩
    | child hparent _ => exact absurd hparent.pos (Nat.lt_irrefl 0)

end Snapshot

/-- A walk that refuses no group leaves out children exactly where groups have descendants below the
levels that are left. -/
theorem Forest.nestingTooDeep_mem_warnings_iff (groups : Snapshot) (layer : LayerId)
    (levels : ℕ) :
    (∀ node entered, ((ofSnapshot groups layer).visit levels node entered).1.refused = [] →
      (Event.nestingTooDeep ∈ ((ofSnapshot groups layer).visit levels node entered).1.warnings ↔
        groups.HasDescendants layer levels node.group)) ∧
    ∀ nodes entered, Visit.refusedOfAll
        (visitEach ((ofSnapshot groups layer).visit levels) nodes entered).1 = [] →
      (Event.nestingTooDeep ∈ Visit.warningsOfAll
          (visitEach ((ofSnapshot groups layer).visit levels) nodes entered).1 ↔
        ∃ g ∈ nodes.map Node.group, groups.HasDescendants layer levels g) := by
  apply (ofSnapshot groups layer).visit_induction ?_ ?_ ?_ ?_ ?_ ?_ levels
  · intro levels node entered h hrefused
    simp [visit_of_mem levels h, Visit.refused] at hrefused
  · intro node entered h hc _
    have hbelow : groups.HasDescendants layer 0 node.group := by
      rw [Snapshot.HasDescendants, ← Snapshot.groups_childrenOf]
      simpa using hc
    simp [visit_cut h hc, Visit.warnings, hbelow]
  · intro node entered h hc _
    have hnone : ¬ groups.HasDescendants layer 0 node.group := by
      rw [Snapshot.HasDescendants, ← Snapshot.groups_childrenOf, hc]
      simp
    simp [visit_leaf h hc, Visit.warnings, Visit.warningsOfAll, hnone]
  · intro levels node entered h ih hrefused
    rw [visit_succ h, Visit.refused] at hrefused
    rw [visit_succ h, Visit.warnings, ih hrefused, Snapshot.groups_childrenOf]
    rfl
  · intro levels entered _
    simp [Visit.warningsOfAll]
  · intro levels node rest entered hone heach hrefused
    rw [visitEach_cons, Visit.refusedOfAll] at hrefused
    obtain ⟨hfirst, hrest⟩ := List.append_eq_nil_iff.mp hrefused
    rw [visitEach_cons, Visit.warningsOfAll, List.mem_append, hone hfirst, heach hrest,
      List.map_cons, List.exists_mem_cons_iff]

namespace Snapshot

variable {groups : Snapshot} {layer : LayerId} {limit : ℕ}

/-- Compiling reports children that it leaves out exactly if some group is too deep. -/
theorem nestingTooDeep_mem_events_iff (hpos : 1 ≤ limit)
    (hids : ((groups.applicable layer).map FilterGroup.id).Nodup) :
    Event.nestingTooDeep ∈ (groups.compile layer limit).events ↔
      ∃ g, groups.IsDeeperThan layer limit g := by
  have hwalk := (Forest.nestingTooDeep_mem_warnings_iff groups layer (limit - 1)).2
    (Forest.ofSnapshot groups layer).roots .none (refusedOfAll_visits hids limit)
  rw [groups_roots, exists_hasDescendants_iff hpos] at hwalk
  rw [events_compile, List.mem_append, Visit.mem_events_compileEach_iff layer (by decide), visits,
    Forest.walk, hwalk]
  simp

theorem IsDeeperThan.mem {g : FilterGroup} (h : groups.IsDeeperThan layer limit g) :
    g ∈ groups := by
  obtain ⟨depth, _, hdepth⟩ := h
  exact List.mem_of_mem_filter hdepth.mem

theorem pruned_eq_self (h : ∀ g depth, groups.HasDepth layer g depth → depth ≤ limit) :
    groups.pruned layer limit = groups := by
  rw [pruned, List.filter_eq_self]
  intro g _
  rw [decide_eq_true_eq]
  rintro ⟨depth, hlt, hdepth⟩
  exact absurd (h g depth hdepth) (Nat.not_le.mpr hlt)

/-- Roots are entered whatever the limit is. -/
theorem compile_max_one (groups : Snapshot) (layer : LayerId) (limit : ℕ) :
    groups.compile layer (max 1 limit) = groups.compile layer limit := by
  cases limit with
  | zero => rfl
  | succ limit => rw [Nat.max_eq_right (Nat.succ_pos limit)]

/-- A limit that no group is deeper than can be raised. -/
theorem result_compile_of_depths_le {limit' : ℕ}
    (hids : ((groups.applicable layer).map FilterGroup.id).Nodup)
    (h : ∀ g depth, groups.HasDepth layer g depth → depth ≤ limit) (hle : max 1 limit ≤ limit') :
    (groups.compile layer limit).result = (groups.compile layer limit').result := by
  have hdepths : ∀ g depth, groups.HasDepth layer g depth → depth ≤ max 1 limit :=
    fun g depth hdepth => (h g depth hdepth).trans (le_max_right _ _)
  rw [← compile_max_one, ← result_compile_pruned hids (le_max_left _ _) hle,
    pruned_eq_self hdepths]

/-- Where no two groups share an id, a depth limit leaves out the groups that are deeper, reports it
if there are any, and does nothing else. -/
theorem compile_within_limit (hids : ((groups.applicable layer).map FilterGroup.id).Nodup) :
    (∀ limit, 1 ≤ limit →
      (∀ limit', limit ≤ limit' → (groups.compile layer limit).result =
        ((groups.pruned layer limit).compile layer limit').result) ∧
      (Event.nestingTooDeep ∈ (groups.compile layer limit).events ↔
        ∃ g ∈ groups, groups.IsDeeperThan layer limit g)) ∧
    ∀ limit limit', (∀ g depth, groups.HasDepth layer g depth → depth ≤ limit ∧ depth ≤ limit') →
      (groups.compile layer limit).result = (groups.compile layer limit').result := by
  refine ⟨fun limit hpos => ⟨fun limit' hle => ?_, ?_⟩, fun limit limit' hdepths => ?_⟩
  · exact (result_compile_pruned hids hpos hle).symm
  · rw [nestingTooDeep_mem_events_iff hpos hids]
    exact ⟨fun ⟨g, hg⟩ => ⟨g, hg.mem, hg⟩, fun ⟨g, _, hg⟩ => ⟨g, hg⟩⟩
  · have hle : max 1 limit ≤ max (max 1 limit) (max 1 limit') := le_max_left _ _
    have hle' : max 1 limit' ≤ max (max 1 limit) (max 1 limit') := le_max_right _ _
    rw [result_compile_of_depths_le hids (fun g depth h => (hdepths g depth h).1) hle,
      result_compile_of_depths_le hids (fun g depth h => (hdepths g depth h).2) hle']

/-- A chain of three groups, a group of another layer on it with a group of its own, and a group
that is its own parent. -/
def deepChain : Snapshot :=
  let asks (property : String) : List Filter :=
    [⟨"f", false, .property (.ofCondition property .string .isNull)⟩]
  [⟨"grandchild", .ofList [1], asks "r", .and, some "child"⟩,
    ⟨"child", .ofList [1], asks "q", .or, some "root"⟩,
    ⟨"root", .ofList [1], asks "p", .and, none⟩,
    ⟨"abroad", .ofList [2], asks "s", .and, some "root"⟩,
    ⟨"below", .ofList [1], asks "t", .and, some "abroad"⟩,
    ⟨"loop", .ofList [1], asks "u", .and, some "loop"⟩]

theorem compile_deepChain :
    ((deepChain.applicable 1).map FilterGroup.id).Nodup ∧
      (deepChain.compile 1 2).result = ((deepChain.pruned 1 2).compile 1 7).result ∧
      (deepChain.compile 1 2).result.map Predicate.cql =
        some "((p IS NULL) AND (q IS NULL))".toList ∧
      (deepChain.compile 1 3).result.map Predicate.cql =
        some "((p IS NULL) AND ((q IS NULL) OR (r IS NULL)))".toList ∧
      (deepChain.pruned 1 2).map FilterGroup.id = ["child", "root", "abroad", "below", "loop"] ∧
      Event.nestingTooDeep ∈ (deepChain.compile 1 2).events ∧
      (deepChain.compile 1 3).result = (deepChain.compile 1 9).result := by
  have hids : ((deepChain.applicable 1).map FilterGroup.id).Nodup := by decide
  have hdepths : ∀ g depth, deepChain.HasDepth 1 g depth → depth ≤ 3 ∧ depth ≤ 9 := by
    intro g depth h
    have hall : ∀ g ∈ deepChain, ¬ deepChain.IsDeeperThan 1 3 g := by decide +kernel
    have hle : depth ≤ 3 :=
      not_lt.mp fun hlt => hall g (List.mem_of_mem_filter h.mem) ⟨depth, hlt, h⟩
    exact ⟨hle, by omega⟩
  have hlimit := (compile_within_limit hids).1 2 (by decide)
  exact ⟨hids, hlimit.1 7 (by decide), by decide +kernel, by decide +kernel, by decide +kernel,
    hlimit.2.mpr (by decide +kernel), (compile_within_limit hids).2 3 9 hdepths⟩

end Snapshot
end FilterForest
