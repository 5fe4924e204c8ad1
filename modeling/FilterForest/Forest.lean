import FilterForest.Filter.Group

/-!
# The forest of a layer

The groups of a snapshot that apply to a layer, linked by their parents. A group is known by its
position in the snapshot, so that two groups with the same id stay two. Roots name no parent; the
children of an id are the groups that name it as their parent. A group whose parent is not there
is neither.
-/

namespace FilterForest

/-- A group at a position of a snapshot. -/
structure Node where
  position : Nat
  group : FilterGroup
deriving DecidableEq

structure Forest where
  nodes : List Node

namespace Forest

/-- The groups of a snapshot that apply to a layer. -/
def ofSnapshot (groups : Snapshot) (layer : LayerId) : Forest :=
  ⟨(groups.zipIdx.filter fun (group, _) => group.appliesTo layer).map fun (group, position) =>
    ⟨position, group⟩⟩

variable (forest : Forest)

def roots : List Node := forest.nodes.filter fun node => node.group.parent = none

def childrenOf (id : String) : List Node :=
  forest.nodes.filter fun node => node.group.parent = some id

variable {forest} {node : Node}

theorem mem_roots : node ∈ forest.roots ↔ node ∈ forest.nodes ∧ node.group.parent = none := by
  simp [roots]

theorem mem_childrenOf {id : String} :
    node ∈ forest.childrenOf id ↔ node ∈ forest.nodes ∧ node.group.parent = some id := by
  simp [childrenOf]

end Forest

/-- The positions of the groups entered so far, the last one first. -/
structure Entered where
  positions : List Nat

namespace Entered

def none : Entered := ⟨[]⟩

instance : Membership Nat Entered := ⟨fun entered position => position ∈ entered.positions⟩

instance (position : Nat) (entered : Entered) : Decidable (position ∈ entered) :=
  inferInstanceAs (Decidable (position ∈ entered.positions))

def size (entered : Entered) : Nat := entered.positions.length

/-- Enters a position. Answers whether it is the first time. -/
def enter (position : Nat) (entered : Entered) : Bool × Entered :=
  if position ∈ entered then (false, entered) else (true, ⟨position :: entered.positions⟩)

theorem enter_fst_iff {position : Nat} {entered : Entered} :
    (entered.enter position).1 = true ↔ position ∉ entered := by
  unfold enter
  split <;> simp [*]

@[simp] theorem mem_enter {position other : Nat} {entered : Entered} :
    other ∈ (entered.enter position).2 ↔ other = position ∨ other ∈ entered := by
  unfold enter
  split
  · next h => exact ⟨Or.inr, fun hor => hor.elim (· ▸ h) id⟩
  · exact List.mem_cons

end Entered
end FilterForest
