import FilterForest.Compile.Group
import FilterForest.Forest.Walk

/-!
# Compiling the forest of a layer

A group joins its own conditions and those of its child groups with its operator. Roots are
independent of one another, and all of them have to hold.
-/

namespace FilterForest

namespace Visit

variable (layer : LayerId)

mutual

/-- The condition of a group as a walk came to it. -/
def compile : Visit → Traced Predicate
  | again _ => .dropped .groupReachedTwice
  | cut node => do
    let terms ← node.group.terms layer
    .log [.nestingTooDeep]
    .ofOption (Predicate.combine node.group.operator terms)
  | entered node children => do
    let terms ← node.group.terms layer
    let nested ← Traced.collect (compileEach children)
    .ofOption (Predicate.combine node.group.operator (terms ++ nested))

def compileEach : List Visit → List (Traced Predicate)
  | [] => []
  | visit :: rest => compile visit :: compileEach rest

end

theorem compileEach_eq_map (visits : List Visit) :
    compileEach layer visits = visits.map (compile layer) := by
  induction visits with
  | nil => rfl
  | cons visit rest ih => rw [compileEach, ih, List.map_cons]

end Visit

namespace Snapshot

/-- Compiles the groups of a snapshot that apply to a layer. -/
def compile (groups : Snapshot) (layer : LayerId) (maxDepth : Nat) : Traced Predicate := do
  let roots ←
    Traced.collect (((Forest.ofSnapshot groups layer).walk maxDepth).map (Visit.compile layer))
  .log [.treeCompiled]
  .ofOption (Predicate.combine .and roots)

end Snapshot
end FilterForest
