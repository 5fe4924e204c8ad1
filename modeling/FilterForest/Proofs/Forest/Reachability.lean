import FilterForest.Proofs.Forest.Record

/-!
# What a walk reaches

A group is reached from a root by stepping to groups that name the last one as their parent. A walk
enters only such groups and none of them twice, whatever the ids are. It enters all of them when
its depth is at least the number of groups: where it stops for depth, as many groups lie on the path
as there are, so that no child is left to enter.
-/
namespace FilterForest

namespace Snapshot

def applicable (groups : Snapshot) (layer : LayerId) : Snapshot :=
  groups.filter fun g => g.appliesTo layer

theorem mem_applicable {groups : Snapshot} {layer : LayerId} {g : FilterGroup} :
    g ∈ groups.applicable layer ↔ g ∈ groups ∧ layer ∈ g.layers := by
  rw [applicable, List.mem_filter, FilterGroup.appliesTo_iff]

/-- The groups of a layer that can be reached from a root, by the ids that groups give as their
parents. Ids can be repeated, so that a child can have several parents. -/
inductive Reaches (groups : Snapshot) (layer : LayerId) : Node → Prop
  | root {position group} : groups[position]? = some group → group.appliesTo layer = true →
      group.parent = none → Reaches groups layer ⟨position, group⟩
  | child {parent position group} : Reaches groups layer parent →
      groups[position]? = some group → group.appliesTo layer = true →
      group.parent = some parent.group.id → Reaches groups layer ⟨position, group⟩

/-- The record of compiling a layer. -/
def visits (groups : Snapshot) (layer : LayerId) (maxDepth : ℕ) : List Visit :=
  (Forest.ofSnapshot groups layer).walk maxDepth

/-- The groups that are entered in compiling a layer, in the order they are entered. -/
def enteredNodes (groups : Snapshot) (layer : LayerId) (maxDepth : ℕ) : List Node :=
  Visit.nodesOfAll (groups.visits layer maxDepth)

end Snapshot

namespace Forest

theorem mem_ofSnapshot {groups : Snapshot} {layer : LayerId} {node : Node} :
    node ∈ (ofSnapshot groups layer).nodes ↔
      groups[node.position]? = some node.group ∧ node.group.appliesTo layer = true := by
  simp only [ofSnapshot, List.mem_map, List.mem_filter, Prod.exists,
    List.mem_zipIdx_iff_getElem?]
  constructor
  · rintro ⟨group, position, ⟨hget, happ⟩, rfl⟩
    exact ⟨hget, happ⟩
  · rintro ⟨hget, happ⟩
    exact ⟨node.group, node.position, ⟨hget, happ⟩, rfl⟩

theorem positions_ofSnapshot (groups : Snapshot) (layer : LayerId) :
    ((ofSnapshot groups layer).nodes.map Node.position).Nodup := by
  have hsub : (((groups.zipIdx.filter fun entry => entry.1.appliesTo layer).map Prod.snd)).Sublist
      (groups.zipIdx.map Prod.snd) := List.filter_sublist.map _
  have hnodup : (groups.zipIdx.map Prod.snd).Nodup := by
    rw [List.zipIdx_map_snd]
    exact List.nodup_range'
  rw [ofSnapshot, List.map_map]
  exact hnodup.sublist hsub

theorem groups_ofSnapshot (groups : Snapshot) (layer : LayerId) :
    (ofSnapshot groups layer).nodes.map Node.group = groups.applicable layer := by
  have hfst : groups = groups.zipIdx.map Prod.fst := (List.zipIdx_map_fst 0 groups).symm
  conv_rhs => rw [hfst, Snapshot.applicable, List.filter_map]
  simp only [ofSnapshot, List.map_map]
  rfl

theorem length_ofSnapshot (groups : Snapshot) (layer : LayerId) :
    (ofSnapshot groups layer).nodes.length = (groups.applicable layer).length := by
  rw [← groups_ofSnapshot, List.length_map]

variable (forest : Forest)

theorem positions_visit (levels : ℕ) :
    (∀ node entered, (forest.visit levels node entered).2.positions =
      ((forest.visit levels node entered).1.nodes.map Node.position).reverse ++
        entered.positions) ∧
    ∀ nodes entered, (visitEach (forest.visit levels) nodes entered).2.positions =
      ((Visit.nodesOfAll (visitEach (forest.visit levels) nodes entered).1).map
        Node.position).reverse ++ entered.positions := by
  apply forest.visit_induction ?_ ?_ ?_ ?_ ?_ ?_ levels
  · intro levels node entered h
    simp [visit_of_mem levels h, Visit.nodes]
  · intro node entered h hc
    simp [visit_cut h hc, Visit.nodes]
  · intro node entered h hc
    simp [visit_leaf h hc, Visit.nodes, Visit.nodesOfAll]
  · intro levels node entered h ih
    simp [visit_succ h, Visit.nodes, ih]
  · intro levels entered
    simp [Visit.nodesOfAll]
  · intro levels node rest entered hone heach
    simp [visitEach_cons, Visit.nodesOfAll, heach, hone]

theorem mem_visit {levels position : ℕ} {node : Node} {entered : Entered} :
    position ∈ (forest.visit levels node entered).2 ↔
      position ∈ (forest.visit levels node entered).1.nodes.map Node.position ∨
        position ∈ entered := by
  simp only [Entered.mem_iff]
  rw [(forest.positions_visit levels).1, List.mem_append, List.mem_reverse]

theorem mem_visitEach {levels position : ℕ} {nodes : List Node} {entered : Entered} :
    position ∈ (visitEach (forest.visit levels) nodes entered).2 ↔
      position ∈ (Visit.nodesOfAll (visitEach (forest.visit levels) nodes entered).1).map
        Node.position ∨ position ∈ entered := by
  simp only [Entered.mem_iff]
  rw [(forest.positions_visit levels).2, List.mem_append, List.mem_reverse]

theorem mem_visit_self (levels : ℕ) (node : Node) (entered : Entered) :
    node.position ∈ (forest.visit levels node entered).2 := by
  by_cases h : node.position ∈ entered
  · exact forest.mem_visit.mpr (Or.inr h)
  · cases levels with
    | zero =>
      by_cases hc : forest.childrenOf node.group.id = []
      · simp [visit_leaf h hc]
      · simp [visit_cut h hc]
    | succ levels =>
      rw [visit_succ h]
      exact forest.mem_visitEach.mpr (Or.inr (by simp))

theorem mem_visitEach_self {levels : ℕ} {node : Node} {nodes : List Node} (hn : node ∈ nodes)
    (entered : Entered) :
    node.position ∈ (visitEach (forest.visit levels) nodes entered).2 := by
  induction nodes generalizing entered with
  | nil => simp at hn
  | cons first rest ih =>
    rw [visitEach_cons]
    rcases List.mem_cons.mp hn with rfl | hrest
    · exact forest.mem_visitEach.mpr (Or.inr (forest.mem_visit_self levels _ entered))
    · exact ih hrest _

theorem nodup_visit (levels : ℕ) :
    (∀ node entered, entered.positions.Nodup →
      (forest.visit levels node entered).2.positions.Nodup) ∧
    ∀ nodes entered, entered.positions.Nodup →
      (visitEach (forest.visit levels) nodes entered).2.positions.Nodup := by
  apply forest.visit_induction ?_ ?_ ?_ ?_ ?_ ?_ levels
  · intro levels node entered h hnodup
    simpa [visit_of_mem levels h] using hnodup
  · intro node entered h hc hnodup
    rw [visit_cut h hc]
    exact List.nodup_cons.mpr ⟨h, hnodup⟩
  · intro node entered h hc hnodup
    rw [visit_leaf h hc]
    exact List.nodup_cons.mpr ⟨h, hnodup⟩
  · intro levels node entered h ih hnodup
    rw [visit_succ h]
    exact ih (List.nodup_cons.mpr ⟨h, hnodup⟩)
  · intro levels entered hnodup
    exact hnodup
  · intro levels node rest entered hone heach hnodup
    rw [visitEach_cons]
    exact heach (hone hnodup)

/-- What holds of the nodes a walk starts from, and of the children of nodes of which it holds,
holds of every node that it enters. -/
theorem forall_nodes_visit {p : Node → Prop}
    (hchild : ∀ node, p node → ∀ child ∈ forest.childrenOf node.group.id, p child)
    (levels : ℕ) :
    (∀ node entered, p node → ∀ n ∈ (forest.visit levels node entered).1.nodes, p n) ∧
    ∀ nodes entered, (∀ node ∈ nodes, p node) →
      ∀ n ∈ Visit.nodesOfAll (visitEach (forest.visit levels) nodes entered).1, p n := by
  apply forest.visit_induction ?_ ?_ ?_ ?_ ?_ ?_ levels
  · intro levels node entered h _
    simp [visit_of_mem levels h, Visit.nodes]
  · intro node entered h hc hp
    simpa [visit_cut h hc, Visit.nodes] using hp
  · intro node entered h hc hp
    simpa [visit_leaf h hc, Visit.nodes, Visit.nodesOfAll] using hp
  · intro levels node entered h ih hp n hn
    simp only [visit_succ h, Visit.nodes, List.mem_cons] at hn
    rcases hn with rfl | hn
    · exact hp
    · exact ih (hchild node hp) n hn
  · intro levels entered _
    simp [Visit.nodesOfAll]
  · intro levels node rest entered hone heach hp n hn
    simp only [visitEach_cons, Visit.nodesOfAll, List.mem_append] at hn
    rcases hn with hn | hn
    · exact hone (hp node (by simp)) n hn
    · exact heach (fun m hm => hp m (by simp [hm])) n hn

theorem height_visit (levels : ℕ) :
    (∀ node entered, (forest.visit levels node entered).1.height ≤ levels + 1) ∧
    ∀ nodes entered,
      Visit.heightOfAll (visitEach (forest.visit levels) nodes entered).1 ≤ levels + 1 := by
  apply forest.visit_induction ?_ ?_ ?_ ?_ ?_ ?_ levels
  · intro levels node entered h
    simp [visit_of_mem levels h, Visit.height]
  · intro node entered h hc
    simp [visit_cut h hc, Visit.height]
  · intro node entered h hc
    simp [visit_leaf h hc, Visit.height, Visit.heightOfAll]
  · intro levels node entered h ih
    simp only [visit_succ h, Visit.height]
    omega
  · intro levels entered
    simp [Visit.heightOfAll]
  · intro levels node rest entered hone heach
    simp only [visitEach_cons, Visit.heightOfAll]
    exact max_le hone heach

/-- Every arrival is at a node the walk was asked for or at a child of a group that it entered. -/
theorem arrivals_visit (levels : ℕ) :
    (∀ node entered, (forest.visit levels node entered).1.arrivals ≤
      1 + (forest.visit levels node entered).1.nodes.length * forest.nodes.length) ∧
    ∀ nodes entered, Visit.arrivalsOfAll (visitEach (forest.visit levels) nodes entered).1 ≤
      nodes.length + (Visit.nodesOfAll (visitEach (forest.visit levels) nodes entered).1).length *
        forest.nodes.length := by
  apply forest.visit_induction ?_ ?_ ?_ ?_ ?_ ?_ levels
  · intro levels node entered h
    simp [visit_of_mem levels h, Visit.arrivals]
  · intro node entered h hc
    simp [visit_cut h hc, Visit.arrivals]
  · intro node entered h hc
    simp [visit_leaf h hc, Visit.arrivals, Visit.arrivalsOfAll]
  · intro levels node entered h ih
    have hchildren : (forest.childrenOf node.group.id).length ≤ forest.nodes.length :=
      List.length_filter_le _ _
    simp only [visit_succ h, Visit.arrivals, Visit.nodes, List.length_cons, Nat.add_mul]
    omega
  · intro levels entered
    simp [Visit.arrivalsOfAll]
  · intro levels node rest entered hone heach
    simp only [visitEach_cons, Visit.arrivalsOfAll, Visit.nodesOfAll, List.length_append,
      List.length_cons, Nat.add_mul]
    omega

/-- The nodes that are still to be entered. -/
def pending (entered : Entered) : List Node :=
  forest.nodes.filter fun node => node.position ∉ entered

/-- The children of what was entered since are entered as well. -/
def ClosedSince (before after : Entered) : Prop :=
  ∀ node ∈ forest.nodes, node.position ∈ after → node.position ∉ before →
    ∀ child ∈ forest.childrenOf node.group.id, child.position ∈ after

variable {forest} {node : Node} {entered : Entered}

theorem length_pending_add (hn : node ∈ forest.nodes) (h : node.position ∉ entered) :
    (forest.pending (entered.add node.position)).length < (forest.pending entered).length := by
  have hsub : (forest.pending (entered.add node.position)).Sublist (forest.pending entered) := by
    apply List.monotone_filter_right
    intro other hother
    simp only [Entered.mem_add, not_or, decide_eq_true_eq] at hother ⊢
    exact hother.2
  refine lt_of_le_of_ne hsub.length_le fun heq => ?_
  have hmem : node ∈ forest.pending (entered.add node.position) := by
    rw [hsub.eq_of_length heq]
    exact List.mem_filter.mpr ⟨hn, by simpa using h⟩
  simp [pending] at hmem

theorem length_pending_le {before after : Entered} (h : ∀ p, p ∈ before → p ∈ after) :
    (forest.pending after).length ≤ (forest.pending before).length := by
  apply List.Sublist.length_le
  apply List.monotone_filter_right
  intro other hother
  simp only [decide_eq_true_eq] at hother ⊢
  exact fun hmem => hother (h _ hmem)

theorem mem_of_pending_eq_nil (h : (forest.pending entered).length = 0) (hn : node ∈ forest.nodes) :
    node.position ∈ entered := by
  by_contra hnot
  have hmem : node ∈ forest.pending entered := List.mem_filter.mpr ⟨hn, by simpa using hnot⟩
  rw [List.eq_nil_of_length_eq_zero h] at hmem
  simp at hmem

theorem ClosedSince.trans {before middle after : Entered} (h : forest.ClosedSince before middle)
    (h' : forest.ClosedSince middle after) (hmono : ∀ p, p ∈ middle → p ∈ after) :
    forest.ClosedSince before after := by
  intro node hn hafter hbefore child hchild
  by_cases hmiddle : node.position ∈ middle
  · exact hmono _ (h node hn hmiddle hbefore child hchild)
  · exact h' node hn hafter hmiddle child hchild

theorem closedSince_of_add (hpos : (forest.nodes.map Node.position).Nodup)
    (hn : node ∈ forest.nodes) {after : Entered}
    (h : forest.ClosedSince (entered.add node.position) after)
    (hself : ∀ child ∈ forest.childrenOf node.group.id, child.position ∈ after) :
    forest.ClosedSince entered after := by
  intro other hother hafter hbefore child hchild
  by_cases heq : other.position = node.position
  · obtain rfl := List.inj_on_of_nodup_map hpos hother hn heq
    exact hself child hchild
  · exact h other hother hafter (by simp [heq, hbefore]) child hchild

/-- What a visit enters is closed under children if it leaves none out, and also with at least as
many levels as there are nodes to enter: a walk that is cut off then has no node left to enter. -/
theorem closedSince_visit (hpos : (forest.nodes.map Node.position).Nodup) (levels : ℕ) :
    (∀ node entered, node ∈ forest.nodes →
      (forest.pending entered).length ≤ levels + 1 ∨
        (forest.visit levels node entered).1.cutNodes = [] →
      forest.ClosedSince entered (forest.visit levels node entered).2) ∧
    ∀ nodes entered, (∀ node ∈ nodes, node ∈ forest.nodes) →
      (forest.pending entered).length ≤ levels + 1 ∨
        Visit.cutNodesOfAll (visitEach (forest.visit levels) nodes entered).1 = [] →
      forest.ClosedSince entered (visitEach (forest.visit levels) nodes entered).2 := by
  apply forest.visit_induction ?_ ?_ ?_ ?_ ?_ ?_ levels
  · intro levels node entered h _ _
    rw [visit_of_mem levels h]
    exact fun _ _ hafter hbefore => absurd hafter hbefore
  · intro node entered h hc hn hroom
    rw [visit_cut h hc] at hroom ⊢
    have hnone : (forest.pending (entered.add node.position)).length = 0 := by
      have hlt := length_pending_add hn h
      rcases hroom with hroom | hcut
      · omega
      · exact absurd hcut (List.cons_ne_nil _ _)
    exact fun _ _ _ _ child hchild =>
      mem_of_pending_eq_nil hnone (mem_childrenOf.mp hchild).1
  · intro node entered h hc hn _
    rw [visit_leaf h hc]
    apply closedSince_of_add hpos hn
    · exact fun _ _ hafter hbefore => absurd hafter hbefore
    · simp [hc]
  · intro levels node entered h ih hn hroom
    rw [visit_succ h] at hroom ⊢
    apply closedSince_of_add hpos hn
    · refine ih (fun child hchild => (mem_childrenOf.mp hchild).1) (hroom.imp_left fun hroom => ?_)
      have := length_pending_add hn h
      omega
    · exact fun child hchild => forest.mem_visitEach_self hchild _
  · intro levels entered _ _
    exact fun _ _ hafter hbefore => absurd hafter hbefore
  · intro levels node rest entered hone heach hnodes hroom
    rw [visitEach_cons, Visit.cutNodesOfAll, List.append_eq_nil_iff] at hroom
    rw [visitEach_cons]
    have hgrow : ∀ p, p ∈ entered → p ∈ (forest.visit levels node entered).2 :=
      fun p hp => forest.mem_visit.mpr (Or.inr hp)
    have hfirst := hone (hnodes node (by simp)) (hroom.imp_right And.left)
    have hrest := heach (fun m hm => hnodes m (by simp [hm]))
      (hroom.imp (length_pending_le hgrow).trans And.right)
    exact hfirst.trans hrest fun p hp => forest.mem_visitEach.mpr (Or.inr hp)

end Forest

namespace Snapshot

variable {groups : Snapshot} {layer : LayerId} {maxDepth : ℕ} {node : Node}

theorem reaches_of_mem_roots (h : node ∈ (Forest.ofSnapshot groups layer).roots) :
    groups.Reaches layer node := by
  obtain ⟨hn, hroot⟩ := Forest.mem_roots.mp h
  obtain ⟨hget, happ⟩ := Forest.mem_ofSnapshot.mp hn
  exact .root hget happ hroot

theorem Reaches.of_mem_childrenOf (h : groups.Reaches layer node) {child : Node}
    (hchild : child ∈ (Forest.ofSnapshot groups layer).childrenOf node.group.id) :
    groups.Reaches layer child := by
  obtain ⟨hn, hparent⟩ := Forest.mem_childrenOf.mp hchild
  obtain ⟨hget, happ⟩ := Forest.mem_ofSnapshot.mp hn
  exact .child h hget happ hparent

theorem nodup_enteredNodes (groups : Snapshot) (layer : LayerId) (maxDepth : ℕ) :
    ((groups.enteredNodes layer maxDepth).map Node.position).Nodup := by
  have hnodup := ((Forest.ofSnapshot groups layer).nodup_visit (maxDepth - 1)).2
    (Forest.ofSnapshot groups layer).roots .none List.nodup_nil
  rw [((Forest.ofSnapshot groups layer).positions_visit (maxDepth - 1)).2] at hnodup
  exact List.nodup_reverse.mp (List.nodup_append.mp hnodup).1

theorem reaches_of_mem_enteredNodes (h : node ∈ groups.enteredNodes layer maxDepth) :
    groups.Reaches layer node :=
  ((Forest.ofSnapshot groups layer).forall_nodes_visit
    (fun _ hreach _ hchild => hreach.of_mem_childrenOf hchild) (maxDepth - 1)).2 _ .none
    (fun _ hroot => reaches_of_mem_roots hroot) node h

theorem Reaches.mem_nodes (h : groups.Reaches layer node) :
    node ∈ (Forest.ofSnapshot groups layer).nodes := by
  cases h with
  | root hget happ _ => exact Forest.mem_ofSnapshot.mpr ⟨hget, happ⟩
  | child _ hget happ _ => exact Forest.mem_ofSnapshot.mpr ⟨hget, happ⟩

theorem mem_enteredNodes_of_position (hn : node ∈ (Forest.ofSnapshot groups layer).nodes)
    (h : node.position ∈ (groups.enteredNodes layer maxDepth).map Node.position) :
    node ∈ groups.enteredNodes layer maxDepth := by
  obtain ⟨other, hother, heq⟩ := List.mem_map.mp h
  have hnodes := (reaches_of_mem_enteredNodes hother).mem_nodes
  exact List.inj_on_of_nodup_map (Forest.positions_ofSnapshot groups layer) hnodes hn heq ▸ hother

/-- A walk that leaves out no children enters all groups that can be reached, and so does one with
room for all groups on a path. -/
theorem Reaches.mem_enteredNodes_of_or (h : groups.Reaches layer node)
    (hroom : (groups.applicable layer).length ≤ maxDepth ∨
      Visit.cutNodesOfAll (groups.visits layer maxDepth) = []) :
    node ∈ groups.enteredNodes layer maxDepth := by
  have hpending : ((Forest.ofSnapshot groups layer).pending .none).length ≤
      (groups.applicable layer).length := by
    rw [← Forest.length_ofSnapshot]
    exact List.length_filter_le _ _
  have hclosed := ((Forest.ofSnapshot groups layer).closedSince_visit
    (Forest.positions_ofSnapshot groups layer) (maxDepth - 1)).2
    (Forest.ofSnapshot groups layer).roots .none
    (fun _ hroot => (Forest.mem_roots.mp hroot).1) (hroom.imp_left fun hdepth => by omega)
  have hposition : node.position ∈ (Forest.visitEach
      ((Forest.ofSnapshot groups layer).visit (maxDepth - 1))
      (Forest.ofSnapshot groups layer).roots .none).2 := by
    induction h with
    | root hget happ hroot =>
      exact Forest.mem_visitEach_self _
        (Forest.mem_roots.mpr ⟨Forest.mem_ofSnapshot.mpr ⟨hget, happ⟩, hroot⟩) _
    | child hparent hget happ hname ih =>
      exact hclosed _ hparent.mem_nodes ih (Entered.not_mem_none _) _
        (Forest.mem_childrenOf.mpr ⟨Forest.mem_ofSnapshot.mpr ⟨hget, happ⟩, hname⟩)
  apply mem_enteredNodes_of_position h.mem_nodes
  rcases (Forest.mem_visitEach _).mp hposition with hmem | hmem
  · exact hmem
  · exact absurd hmem (Entered.not_mem_none _)

theorem Reaches.mem_enteredNodes (hdepth : (groups.applicable layer).length ≤ maxDepth)
    (h : groups.Reaches layer node) : node ∈ groups.enteredNodes layer maxDepth :=
  h.mem_enteredNodes_of_or (.inl hdepth)

theorem length_enteredNodes_le (groups : Snapshot) (layer : LayerId) (maxDepth : ℕ) :
    (groups.enteredNodes layer maxDepth).length ≤ (groups.applicable layer).length := by
  rw [← Forest.length_ofSnapshot]
  apply List.Subperm.length_le
  apply List.subperm_of_subset (List.Nodup.of_map _ (nodup_enteredNodes groups layer maxDepth))
  exact fun node hn => (reaches_of_mem_enteredNodes hn).mem_nodes

theorem arrivalsOfAll_visits_le (groups : Snapshot) (layer : LayerId) (maxDepth : ℕ) :
    Visit.arrivalsOfAll (groups.visits layer maxDepth) ≤
      (groups.applicable layer).length * ((groups.applicable layer).length + 1) := by
  have harrivals := ((Forest.ofSnapshot groups layer).arrivals_visit (maxDepth - 1)).2
    (Forest.ofSnapshot groups layer).roots .none
  have hroots : (Forest.ofSnapshot groups layer).roots.length ≤
      (Forest.ofSnapshot groups layer).nodes.length := List.length_filter_le _ _
  have hentered := Nat.mul_le_mul_right (groups.applicable layer).length
    (length_enteredNodes_le groups layer maxDepth)
  rw [Forest.length_ofSnapshot] at harrivals hroots
  rw [Nat.mul_add_one]
  simp only [visits, Forest.walk, enteredNodes] at hentered ⊢
  omega

theorem height_le_of_mem_visits {visit : Visit} (h : visit ∈ groups.visits layer maxDepth) :
    visit.height ≤ max 1 maxDepth := by
  have hheight := ((Forest.ofSnapshot groups layer).height_visit (maxDepth - 1)).2
    (Forest.ofSnapshot groups layer).roots .none
  have hle := (Visit.height_le_heightOfAll h).trans hheight
  omega

/-- Compiling a layer comes to groups a bounded number of times, enters none of them twice, keeps
within the depth and enters reachable groups only; with room for all groups on one path it enters
every group that can be reached. -/
theorem visits_reachable (groups : Snapshot) (layer : LayerId) (maxDepth : ℕ) :
    Visit.arrivalsOfAll (groups.visits layer maxDepth) ≤
        (groups.applicable layer).length * ((groups.applicable layer).length + 1) ∧
      ((groups.enteredNodes layer maxDepth).map Node.position).Nodup ∧
      (∀ visit ∈ groups.visits layer maxDepth, visit.height ≤ max 1 maxDepth) ∧
      (∀ node ∈ groups.enteredNodes layer maxDepth, groups.Reaches layer node) ∧
      ((groups.applicable layer).length ≤ maxDepth →
        ∀ node, node ∈ groups.enteredNodes layer maxDepth ↔ groups.Reaches layer node) := by
  refine ⟨arrivalsOfAll_visits_le groups layer maxDepth, nodup_enteredNodes groups layer maxDepth,
    fun visit hvisit => height_le_of_mem_visits hvisit,
    fun node hn => reaches_of_mem_enteredNodes hn, ?_⟩
  intro hdepth node
  exact ⟨reaches_of_mem_enteredNodes, fun h => h.mem_enteredNodes hdepth⟩

/-- A root and a group of the same id that is its own parent and the child of the root. -/
def withRepeatedId : Snapshot :=
  [(FilterGroup.empty "a" .and).addLayer 1,
    ((FilterGroup.empty "a" .and).addLayer 1).setParent "a"]

theorem visits_withRepeatedId : (withRepeatedId.applicable 1).length ≤ 2 ∧
    ∀ node, node ∈ withRepeatedId.enteredNodes 1 2 ↔ withRepeatedId.Reaches 1 node := by
  have hdepth : (withRepeatedId.applicable 1).length ≤ 2 := by decide
  obtain ⟨-, -, -, -, hentered⟩ := visits_reachable withRepeatedId 1 2
  exact ⟨hdepth, hentered hdepth⟩

end Snapshot
end FilterForest
