import FilterForest.Proofs.Forest.Matching

/-!
# Interleaved forests

A list interleaves two others if it has the items of both, those of each in their order. Where a
forest interleaves the nodes of two others and no node of one names a node of the other as its
parent, its walk interleaves their walks: what was entered in one of them makes no difference in the
other, however often ids are repeated within each.
-/
namespace FilterForest

/-- The items of two lists, those of each list in their order. -/
inductive Interleaves {α : Type*} : List α → List α → List α → Prop
  | nil : Interleaves [] [] []
  | left {a as bs merged} : Interleaves as bs merged → Interleaves (a :: as) bs (a :: merged)
  | right {b as bs merged} : Interleaves as bs merged → Interleaves as (b :: bs) (b :: merged)

namespace Interleaves

variable {α β : Type*} {as bs merged : List α}

theorem append (as bs : List α) : Interleaves as bs (as ++ bs) := by
  induction as with
  | nil =>
    induction bs with
    | nil => exact .nil
    | cons b bs ih => exact .right ih
  | cons a as ih => exact .left ih

theorem symm (h : Interleaves as bs merged) : Interleaves bs as merged := by
  induction h with
  | nil => exact .nil
  | left _ ih => exact .right ih
  | right _ ih => exact .left ih

theorem perm (h : Interleaves as bs merged) : merged.Perm (as ++ bs) := by
  induction h with
  | nil => exact .nil
  | left _ ih => exact .cons _ ih
  | right _ ih => exact (ih.cons _).trans List.perm_middle.symm

theorem eq_nil_iff (h : Interleaves as bs merged) : merged = [] ↔ as = [] ∧ bs = [] := by
  rw [← List.append_eq_nil_iff, ← List.length_eq_zero_iff, h.perm.length_eq,
    List.length_eq_zero_iff]

theorem all_eq (h : Interleaves as bs merged) (p : α → Bool) :
    merged.all p = (as.all p && bs.all p) := by
  rw [h.perm.all_eq, List.all_append]

theorem eq_left (h : Interleaves as [] merged) : merged = as := by
  induction as generalizing merged with
  | nil => exact h.eq_nil_iff.mpr ⟨rfl, rfl⟩
  | cons a as ih =>
    cases h with
    | left h => rw [ih h]

theorem eq_right (h : Interleaves [] bs merged) : merged = bs := h.symm.eq_left

theorem filterMap (h : Interleaves as bs merged) (f : α → Option β) :
    Interleaves (as.filterMap f) (bs.filterMap f) (merged.filterMap f) := by
  induction h with
  | nil => exact .nil
  | @left a _ _ _ _ ih =>
    cases hf : f a with
    | none => rwa [List.filterMap_cons_none hf, List.filterMap_cons_none hf]
    | some b =>
      rw [List.filterMap_cons_some hf, List.filterMap_cons_some hf]
      exact .left ih
  | @right a _ _ _ _ ih =>
    cases hf : f a with
    | none => rwa [List.filterMap_cons_none hf, List.filterMap_cons_none hf]
    | some b =>
      rw [List.filterMap_cons_some hf, List.filterMap_cons_some hf]
      exact .right ih

theorem filter (h : Interleaves as bs merged) (p : α → Bool) :
    Interleaves (as.filter p) (bs.filter p) (merged.filter p) := by
  simpa only [List.filterMap_eq_filter] using h.filterMap (Option.guard p)

theorem exists_of_map {as bs : List β} {f : α → β} (h : Interleaves as bs (merged.map f)) :
    ∃ left right, Interleaves left right merged ∧ left.map f = as ∧ right.map f = bs := by
  induction merged generalizing as bs with
  | nil =>
    obtain ⟨rfl, rfl⟩ := h.eq_nil_iff.mp rfl
    exact ⟨[], [], .nil, rfl, rfl⟩
  | cons x merged ih =>
    cases h with
    | left h =>
      obtain ⟨left, right, hmerged, rfl, rfl⟩ := ih h
      exact ⟨x :: left, right, .left hmerged, rfl, rfl⟩
    | right h =>
      obtain ⟨left, right, hmerged, rfl, rfl⟩ := ih h
      exact ⟨left, x :: right, .right hmerged, rfl, rfl⟩

end Interleaves

namespace Forest

/-- A forest of the nodes of two others, where no node names one of the other forest as its
parent. -/
structure Joins (forest left right : Forest) : Prop where
  nodes : Interleaves left.nodes right.nodes forest.nodes
  positions : (forest.nodes.map Node.position).Nodup
  left_parent : ∀ a ∈ left.nodes, ∀ b ∈ right.nodes, a.group.parent ≠ some b.group.id
  right_parent : ∀ a ∈ left.nodes, ∀ b ∈ right.nodes, b.group.parent ≠ some a.group.id

/-- What is entered of two forests on their own is entered of both. -/
structure EnteredJoin (left right : Forest) (entered enteredLeft enteredRight : Entered) :
    Prop where
  left : EnteredMatch (· ∈ left.nodes) id entered enteredLeft
  right : EnteredMatch (· ∈ right.nodes) id entered enteredRight

variable {forest left right : Forest} {entered enteredLeft enteredRight : Entered} {node : Node}

theorem enteredJoin_none (left right : Forest) : left.EnteredJoin right .none .none .none :=
  ⟨fun _ _ => Iff.rfl, fun _ _ => Iff.rfl⟩

theorem EnteredJoin.symm (h : left.EnteredJoin right entered enteredLeft enteredRight) :
    right.EnteredJoin left entered enteredRight enteredLeft :=
  ⟨h.right, h.left⟩

theorem visitEach_append (visit : Node → Entered → Visit × Entered) (nodes rest : List Node)
    (entered : Entered) : visitEach visit (nodes ++ rest) entered =
      ((visitEach visit nodes entered).1 ++
          (visitEach visit rest (visitEach visit nodes entered).2).1,
        (visitEach visit rest (visitEach visit nodes entered).2).2) := by
  induction nodes generalizing entered with
  | nil => rfl
  | cons node nodes ih =>
    rw [List.cons_append, visitEach_cons, visitEach_cons, ih, List.cons_append]

namespace Joins

theorem symm (h : forest.Joins left right) : forest.Joins right left :=
  ⟨h.nodes.symm, h.positions, fun b hb a ha => h.right_parent a ha b hb,
    fun b hb a ha => h.left_parent a ha b hb⟩

theorem roots (h : forest.Joins left right) : Interleaves left.roots right.roots forest.roots :=
  h.nodes.filter _

theorem childrenOf_left (h : forest.Joins left right) (hnode : node ∈ left.nodes) :
    left.childrenOf node.group.id = forest.childrenOf node.group.id := by
  have hnone : right.childrenOf node.group.id = [] := by
    rw [List.eq_nil_iff_forall_not_mem]
    intro child hchild
    obtain ⟨hmem, hparent⟩ := mem_childrenOf.mp hchild
    exact h.right_parent node hnode child hmem hparent
  have hmerged : Interleaves (left.childrenOf node.group.id) (right.childrenOf node.group.id)
      (forest.childrenOf node.group.id) := h.nodes.filter _
  rw [hnone] at hmerged
  exact hmerged.eq_left.symm

theorem matches_left (h : forest.Joins left right) : forest.Matches left (· ∈ left.nodes) id where
  children node hnode := by rw [List.map_id, id, h.childrenOf_left hnode]
  closed node hnode child hchild := by
    rw [← h.childrenOf_left hnode] at hchild
    exact (mem_childrenOf.mp hchild).1
  position _ _ _ _ := Iff.rfl

theorem positions_append (h : forest.Joins left right) :
    (left.nodes.map Node.position ++ right.nodes.map Node.position).Nodup := by
  rw [← List.map_append]
  exact (h.nodes.perm.map Node.position).nodup_iff.mp h.positions

theorem position_ne (h : forest.Joins left right) {other : Node} (hnode : node ∈ left.nodes)
    (hother : other ∈ right.nodes) : node.position ≠ other.position :=
  (List.nodup_append.mp h.positions_append).2.2 _ (List.mem_map_of_mem hnode) _
    (List.mem_map_of_mem hother)

/-- A node of one forest is visited among all of them as in its own, and this enters no node of the
other forest. -/
theorem visit_left (h : forest.Joins left right) (hnode : node ∈ left.nodes) (levels : ℕ)
    (hentered : left.EnteredJoin right entered enteredLeft enteredRight) :
    (forest.visit levels node entered).1 = (left.visit levels node enteredLeft).1 ∧
      left.EnteredJoin right (forest.visit levels node entered).2
        (left.visit levels node enteredLeft).2 enteredRight := by
  obtain ⟨hvisit, hleft⟩ :=
    (h.matches_left.visit levels).1 node entered hnode enteredLeft hentered.left
  rw [Visit.map_id, id] at hvisit
  refine ⟨hvisit.symm, hleft, fun other hother => ?_⟩
  have hnot : other.position ∉ (forest.visit levels node entered).1.nodes.map Node.position := by
    rintro hmem
    obtain ⟨reached, hreached, heq⟩ := List.mem_map.mp hmem
    have hinside := (forest.forall_nodes_visit h.matches_left.closed levels).1 node entered hnode
    exact h.position_ne (hinside reached hreached) hother heq
  rw [hentered.right other hother, forest.mem_visit]
  exact (or_iff_right hnot).symm

theorem visit_right (h : forest.Joins left right) (hnode : node ∈ right.nodes) (levels : ℕ)
    (hentered : left.EnteredJoin right entered enteredLeft enteredRight) :
    (forest.visit levels node entered).1 = (right.visit levels node enteredRight).1 ∧
      left.EnteredJoin right (forest.visit levels node entered).2 enteredLeft
        (right.visit levels node enteredRight).2 := by
  obtain ⟨hvisit, hjoin⟩ := h.symm.visit_left hnode levels hentered.symm
  exact ⟨hvisit, hjoin.symm⟩

theorem visitEach (h : forest.Joins left right) (levels : ℕ) {as bs nodes : List Node}
    (hnodes : Interleaves as bs nodes) (has : ∀ a ∈ as, a ∈ left.nodes)
    (hbs : ∀ b ∈ bs, b ∈ right.nodes)
    (hentered : left.EnteredJoin right entered enteredLeft enteredRight) :
    Interleaves (visitEach (left.visit levels) as enteredLeft).1
        (visitEach (right.visit levels) bs enteredRight).1
        (visitEach (forest.visit levels) nodes entered).1 ∧
      left.EnteredJoin right (visitEach (forest.visit levels) nodes entered).2
        (visitEach (left.visit levels) as enteredLeft).2
        (visitEach (right.visit levels) bs enteredRight).2 := by
  induction hnodes generalizing entered enteredLeft enteredRight with
  | nil => exact ⟨.nil, hentered⟩
  | @left a as bs nodes _ ih =>
    obtain ⟨hvisit, hjoin⟩ := h.visit_left (has a List.mem_cons_self) levels hentered
    obtain ⟨hvisits, hafter⟩ := ih (fun n hn => has n (List.mem_cons_of_mem _ hn)) hbs hjoin
    rw [visitEach_cons, visitEach_cons, hvisit]
    exact ⟨.left hvisits, hafter⟩
  | @right b as bs nodes _ ih =>
    obtain ⟨hvisit, hjoin⟩ := h.visit_right (hbs b List.mem_cons_self) levels hentered
    obtain ⟨hvisits, hafter⟩ := ih has (fun n hn => hbs n (List.mem_cons_of_mem _ hn)) hjoin
    rw [visitEach_cons, visitEach_cons, hvisit]
    exact ⟨.right hvisits, hafter⟩

theorem walk (h : forest.Joins left right) (maxDepth : ℕ) :
    Interleaves (left.walk maxDepth) (right.walk maxDepth) (forest.walk maxDepth) :=
  (h.visitEach (maxDepth - 1) h.roots (fun _ ha => (mem_roots.mp ha).1)
    (fun _ hb => (mem_roots.mp hb).1) (enteredJoin_none left right)).1

theorem walk_append (h : forest.Joins left right)
    (hnodes : forest.nodes = left.nodes ++ right.nodes) (maxDepth : ℕ) :
    forest.walk maxDepth = left.walk maxDepth ++ right.walk maxDepth := by
  have hroots : forest.roots = left.roots ++ right.roots := by
    rw [Forest.roots, hnodes, List.filter_append]
    rfl
  obtain ⟨hfirst, hjoin⟩ := h.visitEach (maxDepth - 1) (.append left.roots [])
    (fun _ ha => (mem_roots.mp ha).1) (List.forall_mem_nil _) (enteredJoin_none left right)
  have hrest := (h.visitEach (maxDepth - 1) (.append [] right.roots) (List.forall_mem_nil _)
    (fun _ hb => (mem_roots.mp hb).1) hjoin).1
  rw [List.append_nil] at hfirst
  rw [List.append_nil, List.nil_append] at hrest
  rw [Forest.walk, hroots, visitEach_append, hfirst.eq_left, hrest.eq_right]
  rfl

end Joins
end Forest
end FilterForest
