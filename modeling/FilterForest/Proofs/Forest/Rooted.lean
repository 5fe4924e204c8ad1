import FilterForest.Proofs.Forest.Matching
import Mathlib.Logic.Relation

/-!
# Groups that a root leads to

Stepping from a group to the groups that name it as their parent, whatever layers they are for, the
roots lead to some groups of a snapshot and not to others. Collecting groups whose parents are
collected already finds them after as many rounds as there are groups. A walk enters no others, so a
layer compiles to the same without them.
-/
namespace FilterForest.Snapshot

/-- The groups that can be come to from a group without a parent. -/
inductive IsRooted (groups : Snapshot) : FilterGroup → Prop
  | root {g} : g ∈ groups → g.parent = none → IsRooted groups g
  | child {parent g} : IsRooted groups parent → g ∈ groups → g.parent = some parent.id →
      IsRooted groups g

structure IsChild (groups : Snapshot) (parent child : FilterGroup) : Prop where
  parent_mem : parent ∈ groups
  child_mem : child ∈ groups
  parent_eq : child.parent = some parent.id

/-- Any number of steps from groups to their children. -/
def LeadsTo (groups : Snapshot) : FilterGroup → FilterGroup → Prop :=
  Relation.ReflTransGen groups.IsChild

variable (groups : Snapshot)

/-- The groups whose parents, if they name one, are among some groups. -/
def grow (kept : Snapshot) : Snapshot :=
  groups.filter fun g => g.parent.all fun id => kept.any (·.id = id)

/-- The groups that some number of steps from nothing lead to, the first one to the roots. -/
def reached : ℕ → Snapshot
  | 0 => []
  | rounds + 1 => groups.grow (reached rounds)

variable {groups} {kept kept' : Snapshot} {g : FilterGroup} {rounds : ℕ}

theorem mem_grow : g ∈ groups.grow kept ↔
    g ∈ groups ∧ ∀ id, g.parent = some id → ∃ parent ∈ kept, parent.id = id := by
  simp only [grow, List.mem_filter, Option.all_eq_true, List.any_eq_true, decide_eq_true_eq]

theorem grow_sublist_grow (h : kept ⊆ kept') : (groups.grow kept).Sublist (groups.grow kept') := by
  apply List.monotone_filter_right
  intro g hg
  simp only [Option.all_eq_true, List.any_eq_true] at hg ⊢
  intro id hid
  obtain ⟨parent, hparent, heq⟩ := hg id hid
  exact ⟨parent, h hparent, heq⟩

theorem reached_sublist_succ (groups : Snapshot) (rounds : ℕ) :
    (groups.reached rounds).Sublist (groups.reached (rounds + 1)) := by
  induction rounds with
  | zero => exact List.nil_sublist _
  | succ rounds ih => exact grow_sublist_grow ih.subset

theorem length_reached_le (groups : Snapshot) (rounds : ℕ) :
    (groups.reached rounds).length ≤ groups.length := by
  cases rounds with
  | zero => exact Nat.zero_le _
  | succ rounds => exact List.length_filter_le _ _

theorem reached_succ_of_length_eq
    (h : (groups.reached rounds).length = (groups.reached (rounds + 1)).length) :
    groups.reached (rounds + 1) = groups.reached rounds :=
  ((reached_sublist_succ groups rounds).eq_of_length h).symm

theorem reached_length_succ (groups : Snapshot) :
    groups.reached (groups.length + 1) = groups.reached groups.length := by
  apply reached_succ_of_length_eq
  refine (Nat.stabilises_of_monotone ?_ (length_reached_le groups) ?_ (Nat.le_succ _)).symm
  · exact monotone_nat_of_le_succ fun rounds => (reached_sublist_succ groups rounds).length_le
  · intro rounds h
    have hnext : groups.reached (rounds + 2) = groups.reached (rounds + 1) :=
      congrArg groups.grow (reached_succ_of_length_eq h)
    rw [hnext]

theorem IsRooted.mem (h : groups.IsRooted g) : g ∈ groups := by
  cases h with
  | root hg _ => exact hg
  | child _ hg _ => exact hg

theorem isRooted_of_mem_reached (h : g ∈ groups.reached rounds) : groups.IsRooted g := by
  induction rounds generalizing g with
  | zero => exact absurd h List.not_mem_nil
  | succ rounds ih =>
    obtain ⟨hg, hparents⟩ := mem_grow.mp h
    cases hparent : g.parent with
    | none => exact .root hg hparent
    | some id =>
      obtain ⟨parent, hreached, rfl⟩ := hparents id hparent
      exact .child (ih hreached) hg hparent

theorem mem_reached_iff : g ∈ groups.reached groups.length ↔ groups.IsRooted g := by
  refine ⟨isRooted_of_mem_reached, fun h => ?_⟩
  induction h with
  | root hg hparent =>
    rw [← reached_length_succ]
    exact mem_grow.mpr ⟨hg, by simp [hparent]⟩
  | @child parent g _ hg hparent ih =>
    rw [← reached_length_succ]
    refine mem_grow.mpr ⟨hg, fun id hid => ⟨parent, ih, ?_⟩⟩
    exact Option.some.inj (hparent.symm.trans hid)

instance : DecidablePred groups.IsRooted := fun _ => decidable_of_iff _ mem_reached_iff

/-- A snapshot without the groups that no root leads to. -/
def rooted (groups : Snapshot) : Snapshot := groups.filter fun g => groups.IsRooted g

theorem isRooted_iff : groups.IsRooted g ↔
    ∃ root ∈ groups, root.parent = none ∧ groups.LeadsTo root g := by
  constructor
  · intro h
    induction h with
    | root hg hparent => exact ⟨_, hg, hparent, .refl⟩
    | child hrooted hg hparent ih =>
      obtain ⟨root, hroot, hnone, hleads⟩ := ih
      exact ⟨root, hroot, hnone, hleads.tail ⟨hrooted.mem, hg, hparent⟩⟩
  · rintro ⟨root, hroot, hnone, hleads⟩
    induction hleads with
    | refl => exact .root hroot hnone
    | tail _ hchild ih => exact .child ih hchild.child_mem hchild.parent_eq

theorem not_isRooted_of_mem_orphans (h : g ∈ groups.orphans) : ¬ groups.IsRooted g := by
  obtain ⟨hg, hmissing⟩ := List.mem_filter.mp h
  intro hrooted
  cases hrooted with
  | root _ hparent => simp [hparent] at hmissing
  | child hrooted _ hparent =>
    simp only [hparent, Option.any_some, Bool.not_eq_true', List.any_eq_false] at hmissing
    exact hmissing _ hrooted.mem (decide_eq_true rfl)

/-- A group that nothing but orphans lead to is not rooted, nor is one that nothing leads to but the
groups of a cycle. -/
theorem not_isRooted_of_forall_top
    (h : ∀ top ∈ groups, groups.LeadsTo top g → (∀ parent, ¬ groups.IsChild parent top) →
      top ∈ groups.orphans) : ¬ groups.IsRooted g := by
  intro hrooted
  obtain ⟨root, hroot, hnone, hleads⟩ := isRooted_iff.mp hrooted
  have htop : ∀ parent, ¬ groups.IsChild parent root := by
    intro parent hchild
    exact nomatch hnone.symm.trans hchild.parent_eq
  exact not_isRooted_of_mem_orphans (h root hroot hleads htop) (.root hroot hnone)

/-- The groups of a cycle are rooted together, if a root leads into the cycle. -/
theorem isRooted_iff_of_cycle {other : FilterGroup} (h : groups.LeadsTo g other)
    (h' : groups.LeadsTo other g) :
    groups.IsRooted g ↔ ∃ root ∈ groups, root.parent = none ∧ groups.LeadsTo root other := by
  rw [isRooted_iff]
  constructor
  · rintro ⟨root, hroot, hnone, hleads⟩
    exact ⟨root, hroot, hnone, hleads.trans h⟩
  · rintro ⟨root, hroot, hnone, hleads⟩
    exact ⟨root, hroot, hnone, hleads.trans h'⟩

variable {layer : LayerId} {node : Node}

theorem isRooted_of_mem_roots (h : node ∈ (Forest.ofSnapshot groups layer).roots) :
    groups.IsRooted node.group := by
  obtain ⟨hn, hnone⟩ := Forest.mem_roots.mp h
  exact .root (List.mem_of_getElem? (Forest.mem_ofSnapshot.mp hn).1) hnone

theorem IsRooted.of_mem_childrenOf (h : groups.IsRooted node.group) {child : Node}
    (hchild : child ∈ (Forest.ofSnapshot groups layer).childrenOf node.group.id) :
    groups.IsRooted child.group := by
  obtain ⟨hn, hparent⟩ := Forest.mem_childrenOf.mp hchild
  exact .child h (List.mem_of_getElem? (Forest.mem_ofSnapshot.mp hn).1) hparent

/-- A walk enters only groups that a root leads to. -/
theorem isRooted_of_mem_enteredNodes {maxDepth : ℕ}
    (h : node ∈ groups.enteredNodes layer maxDepth) : groups.IsRooted node.group :=
  ((Forest.ofSnapshot groups layer).forall_nodes_visit
    (fun _ hrooted _ hchild => hrooted.of_mem_childrenOf hchild) (maxDepth - 1)).2 _ .none
    (fun _ hroot => isRooted_of_mem_roots hroot) node h

/-- A layer compiles to the same without the groups that no root leads to. An orphan may share its
id with a group that is entered: it is then not among the children of that group. -/
theorem compile_rooted (groups : Snapshot) (layer : LayerId) (maxDepth : ℕ) :
    groups.rooted.compile layer maxDepth = groups.compile layer maxDepth := by
  have hgroups : (Forest.ofSnapshot groups.rooted layer).nodes.map Node.group =
      ((Forest.ofSnapshot groups layer).filter fun node =>
        groups.IsRooted node.group).nodes.map Node.group := by
    rw [Forest.groups_ofSnapshot, rooted, applicable, List.filter_comm, ← applicable,
      ← Forest.groups_ofSnapshot, List.filter_map]
    rfl
  have hpositions := Forest.nodup_positions_filter (Forest.positions_ofSnapshot groups layer)
    fun node => groups.IsRooted node.group
  rw [← Forest.compile_ofSnapshot, ← Forest.compile_ofSnapshot,
    Forest.compile_congr (Forest.positions_ofSnapshot _ _) hpositions hgroups]
  refine Forest.compile_filter ?_ ?_ maxDepth
  · exact fun root hroot => decide_eq_true (isRooted_of_mem_roots hroot)
  · exact fun node hnode child hchild =>
      decide_eq_true ((of_decide_eq_true hnode).of_mem_childrenOf hchild)

end FilterForest.Snapshot
