import FilterForest.Forest.Walk
import Mathlib.Data.List.Nodup
import Mathlib.Tactic

/-!
# The record of a walk

Views of the record that a walk leaves, and the four things a walk can do at a node. Every fact
about walks in this library is an induction over these four, packaged once as `visit_induction`.
-/
namespace FilterForest

namespace Entered

/-- The account with one more position. -/
def add (position : ℕ) (entered : Entered) : Entered := ⟨position :: entered.positions⟩

@[simp] theorem positions_add (position : ℕ) (entered : Entered) :
    (entered.add position).positions = position :: entered.positions := rfl

@[simp] theorem mem_add {position other : ℕ} {entered : Entered} :
    other ∈ entered.add position ↔ other = position ∨ other ∈ entered := List.mem_cons

@[simp] theorem not_mem_none (position : ℕ) : position ∉ Entered.none := List.not_mem_nil

theorem mem_iff {position : ℕ} {entered : Entered} :
    position ∈ entered ↔ position ∈ entered.positions := Iff.rfl

theorem enter_of_mem {position : ℕ} {entered : Entered} (h : position ∈ entered) :
    entered.enter position = (false, entered) := if_pos h

theorem enter_of_not_mem {position : ℕ} {entered : Entered} (h : position ∉ entered) :
    entered.enter position = (true, entered.add position) := if_neg h

end Entered

namespace Visit

mutual

/-- The number of groups on the longest path of a record, those met again included. -/
def height : Visit → ℕ
  | again _ => 1
  | cut _ => 1
  | entered _ children => 1 + heightOfAll children

def heightOfAll : List Visit → ℕ
  | [] => 0
  | visit :: rest => max (height visit) (heightOfAll rest)

end

mutual

/-- The number of times a walk comes to a group, for the first time or again. -/
def arrivals : Visit → ℕ
  | again _ => 1
  | cut _ => 1
  | entered _ children => 1 + arrivalsOfAll children

def arrivalsOfAll : List Visit → ℕ
  | [] => 0
  | visit :: rest => arrivals visit + arrivalsOfAll rest

end

mutual

/-- The nodes that a walk comes to and does not enter. -/
def refused : Visit → List Node
  | again node => [node]
  | cut _ => []
  | entered _ children => refusedOfAll children

def refusedOfAll : List Visit → List Node
  | [] => []
  | visit :: rest => refused visit ++ refusedOfAll rest

end

mutual

/-- The nodes that a walk enters without their children. -/
def cutNodes : Visit → List Node
  | again _ => []
  | cut node => [node]
  | entered _ children => cutNodesOfAll children

def cutNodesOfAll : List Visit → List Node
  | [] => []
  | visit :: rest => cutNodes visit ++ cutNodesOfAll rest

end

theorem height_le_heightOfAll {visit : Visit} {visits : List Visit} (h : visit ∈ visits) :
    visit.height ≤ heightOfAll visits := by
  induction visits with
  | nil => simp at h
  | cons first rest ih =>
    rcases List.mem_cons.mp h with rfl | hrest
    · exact le_max_left _ _
    · exact (ih hrest).trans (le_max_right _ _)

end Visit

namespace Forest

variable {forest : Forest} {levels : ℕ} {node : Node} {entered : Entered}

@[simp] theorem visitEach_nil (visit : Node → Entered → Visit × Entered) :
    visitEach visit [] entered = ([], entered) := rfl

theorem visitEach_cons (visit : Node → Entered → Visit × Entered) (rest : List Node) :
    visitEach visit (node :: rest) entered =
      ((visit node entered).1 :: (visitEach visit rest (visit node entered).2).1,
        (visitEach visit rest (visit node entered).2).2) := rfl

theorem visit_of_mem (levels : ℕ) (h : node.position ∈ entered) :
    forest.visit levels node entered = (.again node, entered) := by
  cases levels <;> simp [visit, Entered.enter_of_mem h]

theorem visit_cut (h : node.position ∉ entered) (hc : forest.childrenOf node.group.id ≠ []) :
    forest.visit 0 node entered = (.cut node, entered.add node.position) := by
  obtain ⟨child, rest, hcons⟩ := List.exists_cons_of_ne_nil hc
  simp [visit, Entered.enter_of_not_mem h, hcons]

theorem visit_leaf (h : node.position ∉ entered) (hc : forest.childrenOf node.group.id = []) :
    forest.visit 0 node entered = (.entered node [], entered.add node.position) := by
  simp [visit, Entered.enter_of_not_mem h, hc]

theorem visit_succ (h : node.position ∉ entered) :
    forest.visit (levels + 1) node entered =
      (.entered node (visitEach (forest.visit levels) (forest.childrenOf node.group.id)
          (entered.add node.position)).1,
        (visitEach (forest.visit levels) (forest.childrenOf node.group.id)
          (entered.add node.position)).2) := by
  cases hc : forest.childrenOf node.group.id <;>
    simp [visit, Entered.enter_of_not_mem h, hc]

/-- A fact about visits holds of all of them if each of the four things that can happen at a node
keeps it, and going from one node of a list to the next does. -/
theorem visit_induction (forest : Forest) {one : ℕ → Node → Entered → Prop}
    {each : ℕ → List Node → Entered → Prop}
    (again : ∀ levels node entered, node.position ∈ entered → one levels node entered)
    (cut : ∀ node entered, node.position ∉ entered →
      forest.childrenOf node.group.id ≠ [] → one 0 node entered)
    (leaf : ∀ node entered, node.position ∉ entered →
      forest.childrenOf node.group.id = [] → one 0 node entered)
    (inner : ∀ levels node entered, node.position ∉ entered →
      each levels (forest.childrenOf node.group.id) (entered.add node.position) →
      one (levels + 1) node entered)
    (nil : ∀ levels entered, each levels [] entered)
    (cons : ∀ levels node rest entered, one levels node entered →
      each levels rest (forest.visit levels node entered).2 → each levels (node :: rest) entered)
    (levels : ℕ) :
    (∀ node entered, one levels node entered) ∧ ∀ nodes entered, each levels nodes entered := by
  have ofOne : ∀ levels, (∀ node entered, one levels node entered) →
      ∀ nodes entered, each levels nodes entered := by
    intro levels hone nodes
    induction nodes with
    | nil => exact nil levels
    | cons node rest ih =>
      intro entered
      exact cons levels node rest entered (hone node entered) (ih _)
  induction levels with
  | zero =>
    have hone : ∀ node entered, one 0 node entered := by
      intro node entered
      by_cases h : node.position ∈ entered
      · exact again 0 node entered h
      · by_cases hc : forest.childrenOf node.group.id = []
        · exact leaf node entered h hc
        · exact cut node entered h hc
    exact ⟨hone, ofOne 0 hone⟩
  | succ levels ih =>
    have hone : ∀ node entered, one (levels + 1) node entered := by
      intro node entered
      by_cases h : node.position ∈ entered
      · exact again _ node entered h
      · exact inner levels node entered h (ih.2 _ _)
    exact ⟨hone, ofOne _ hone⟩

end Forest
end FilterForest
