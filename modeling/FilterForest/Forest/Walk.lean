import FilterForest.Forest

/-!
# Walking a forest

A walk goes from the roots to their children, depth first and in the order of the snapshot. With
repeated ids the links need not form a forest, so the walk keeps account of the groups it has
entered and enters none of them again; and it stops before children that are too deep. Its record
is a forest again, in which every group occurs that the walk came to.
-/

namespace FilterForest

/-- What a walk does at a group. -/
inductive Visit
  /-- It was here before. -/
  | again (node : Node)
  /-- It enters the group and leaves out its children. -/
  | cut (node : Node)
  /-- It enters the group and then goes to its children. -/
  | entered (node : Node) (children : List Visit)

namespace Forest

def visitEach (visit : Node → Entered → Visit × Entered) :
    List Node → Entered → List Visit × Entered
  | [], entered => ([], entered)
  | node :: rest, entered =>
    let (first, entered) := visit node entered
    let (others, entered) := visitEach visit rest entered
    (first :: others, entered)

variable (forest : Forest)

/-- Visits a node that may have `levels` levels of groups below it. -/
def visit (levels : Nat) (node : Node) (entered : Entered) : Visit × Entered :=
  match entered.enter node.position with
  | (false, entered) => (.again node, entered)
  | (true, entered) =>
    match forest.childrenOf node.group.id, levels with
    | [], _ => (.entered node [], entered)
    | _ :: _, 0 => (.cut node, entered)
    | children, levels + 1 =>
      let (visits, entered) := visitEach (visit levels) children entered
      (.entered node visits, entered)

/-- The walk from the roots, with at most `maxDepth` groups on a path. The roots are walked in any
case. -/
def walk (maxDepth : Nat) : List Visit :=
  (visitEach (forest.visit (maxDepth - 1)) forest.roots .none).1

end Forest

namespace Visit

mutual

/-- The nodes that a walk enters, in the order it enters them. -/
def nodes : Visit → List Node
  | again _ => []
  | cut node => [node]
  | entered node children => node :: nodesOfAll children

def nodesOfAll : List Visit → List Node
  | [] => []
  | visit :: rest => nodes visit ++ nodesOfAll rest

end

end Visit
end FilterForest
