import FilterForest.Proofs.Forest.Reachability

/-!
# Walks over groups with ids of their own

What a visit enters hangs together: every group that is new after it is the one visited or the
child of another new one. When no two groups share an id, a group has one parent at most, and a walk
that has entered only groups whose parents it has entered as well never comes to a group again.
-/
namespace FilterForest
namespace Forest

variable (forest : Forest)

/-- A node that was entered between two moments of a walk. -/
def IsNew (before after : Entered) (node : Node) : Prop :=
  node ∈ forest.nodes ∧ node.position ∈ after ∧ node.position ∉ before

/-- A node whose parent is new. -/
def ParentIsNew (before after : Entered) (node : Node) : Prop :=
  ∃ parent, forest.IsNew before after parent ∧ node.group.parent = some parent.group.id

variable {forest} {before middle after : Entered} {node : Node}

theorem IsNew.of_later (h : forest.IsNew middle after node)
    (hgrow : ∀ p, p ∈ before → p ∈ middle) : forest.IsNew before after node :=
  ⟨h.1, h.2.1, fun hmem => h.2.2 (hgrow _ hmem)⟩

theorem IsNew.of_earlier (h : forest.IsNew before middle node)
    (hgrow : ∀ p, p ∈ middle → p ∈ after) : forest.IsNew before after node :=
  ⟨h.1, hgrow _ h.2.1, h.2.2⟩

theorem ParentIsNew.of_later (h : forest.ParentIsNew middle after node)
    (hgrow : ∀ p, p ∈ before → p ∈ middle) : forest.ParentIsNew before after node := by
  obtain ⟨parent, hnew, hname⟩ := h
  exact ⟨parent, hnew.of_later hgrow, hname⟩

theorem ParentIsNew.of_earlier (h : forest.ParentIsNew before middle node)
    (hgrow : ∀ p, p ∈ middle → p ∈ after) : forest.ParentIsNew before after node := by
  obtain ⟨parent, hnew, hname⟩ := h
  exact ⟨parent, hnew.of_earlier hgrow, hname⟩

theorem subset_visit (forest : Forest) (levels : ℕ) (node : Node) (entered : Entered) :
    ∀ p, p ∈ entered → p ∈ (forest.visit levels node entered).2 :=
  fun _ hp => forest.mem_visit.mpr (Or.inr hp)

theorem subset_visitEach (forest : Forest) (levels : ℕ) (nodes : List Node) (entered : Entered) :
    ∀ p, p ∈ entered → p ∈ (visitEach (forest.visit levels) nodes entered).2 :=
  fun _ hp => forest.mem_visitEach.mpr (Or.inr hp)

theorem eq_of_isNew_add (hpos : (forest.nodes.map Node.position).Nodup) {entered : Entered}
    (hn : node ∈ forest.nodes) {other : Node}
    (h : forest.IsNew entered (entered.add node.position) other) : other = node := by
  obtain ⟨hother, hafter, hbefore⟩ := h
  rcases Entered.mem_add.mp hafter with heq | hmem
  · exact List.inj_on_of_nodup_map hpos hother hn heq
  · exact absurd hmem hbefore

/-- What is new after a visit is the node visited or hangs on something new. -/
theorem isNew_visit (forest : Forest) (hpos : (forest.nodes.map Node.position).Nodup)
    (levels : ℕ) :
    (∀ node entered, node ∈ forest.nodes → ∀ n,
      forest.IsNew entered (forest.visit levels node entered).2 n →
        n = node ∨ forest.ParentIsNew entered (forest.visit levels node entered).2 n) ∧
    ∀ nodes entered, (∀ node ∈ nodes, node ∈ forest.nodes) → ∀ n,
      forest.IsNew entered (visitEach (forest.visit levels) nodes entered).2 n →
        n ∈ nodes ∨
          forest.ParentIsNew entered (visitEach (forest.visit levels) nodes entered).2 n := by
  apply forest.visit_induction ?_ ?_ ?_ ?_ ?_ ?_ levels
  · intro levels node entered h _ n hnew
    rw [visit_of_mem levels h] at hnew
    exact absurd hnew.2.1 hnew.2.2
  · intro node entered h hc hn n hnew
    rw [visit_cut h hc] at hnew
    exact Or.inl (eq_of_isNew_add hpos hn hnew)
  · intro node entered h hc hn n hnew
    rw [visit_leaf h hc] at hnew
    exact Or.inl (eq_of_isNew_add hpos hn hnew)
  · intro levels node entered h ih hn n hnew
    rw [visit_succ h] at hnew ⊢
    have hgrow := forest.subset_visitEach levels (forest.childrenOf node.group.id)
      (entered.add node.position)
    have hnode : forest.IsNew entered (visitEach (forest.visit levels)
        (forest.childrenOf node.group.id) (entered.add node.position)).2 node :=
      ⟨hn, hgrow _ (by simp), h⟩
    by_cases heq : n.position = node.position
    · exact Or.inl (List.inj_on_of_nodup_map hpos hnew.1 hn heq)
    · right
      have hlater : forest.IsNew (entered.add node.position) (visitEach (forest.visit levels)
          (forest.childrenOf node.group.id) (entered.add node.position)).2 n :=
        ⟨hnew.1, hnew.2.1, by simp [heq, hnew.2.2]⟩
      rcases ih (fun child hchild => (mem_childrenOf.mp hchild).1) n hlater with hchild | hparent
      · exact ⟨node, hnode, (mem_childrenOf.mp hchild).2⟩
      · exact hparent.of_later fun p hp => Entered.mem_add.mpr (Or.inr hp)
  · intro levels entered _ n hnew
    exact absurd hnew.2.1 hnew.2.2
  · intro levels node rest entered hone heach hnodes n hnew
    rw [visitEach_cons] at hnew ⊢
    by_cases hmiddle : n.position ∈ (forest.visit levels node entered).2
    · rcases hone (hnodes node (by simp)) n ⟨hnew.1, hmiddle, hnew.2.2⟩ with rfl | hparent
      · exact Or.inl (by simp)
      · exact Or.inr (hparent.of_earlier (forest.subset_visitEach levels rest _))
    · rcases heach (fun m hm => hnodes m (by simp [hm])) n ⟨hnew.1, hnew.2.1, hmiddle⟩ with
        hmem | hparent
      · exact Or.inl (by simp [hmem])
      · exact Or.inr (hparent.of_later (forest.subset_visit levels node entered))

variable (forest)

/-- A node that a walk can come to for the first time: a root, or a child of a node entered. -/
def IsOpen (entered : Entered) (node : Node) : Prop :=
  node.group.parent = none ∨
    ∃ parent ∈ forest.nodes, parent.position ∈ entered ∧ node.group.parent = some parent.group.id

/-- Whatever was entered was entered from its parent. -/
def Connected (entered : Entered) : Prop :=
  ∀ node ∈ forest.nodes, node.position ∈ entered → forest.IsOpen entered node

variable {forest}

theorem IsOpen.mono (h : forest.IsOpen before node) (hgrow : ∀ p, p ∈ before → p ∈ after) :
    forest.IsOpen after node := by
  rcases h with hroot | ⟨parent, hn, hmem, hname⟩
  · exact Or.inl hroot
  · exact Or.inr ⟨parent, hn, hgrow _ hmem, hname⟩

theorem ParentIsNew.isOpen (h : forest.ParentIsNew before after node) :
    forest.IsOpen after node := by
  obtain ⟨parent, hnew, hname⟩ := h
  exact Or.inr ⟨parent, hnew.1, hnew.2.1, hname⟩

theorem Connected.visit (hpos : (forest.nodes.map Node.position).Nodup) {entered : Entered}
    (h : forest.Connected entered) (hn : node ∈ forest.nodes) (hopen : forest.IsOpen entered node)
    (levels : ℕ) : forest.Connected (forest.visit levels node entered).2 := by
  have hgrow := forest.subset_visit levels node entered
  intro n hnodes hmem
  by_cases hold : n.position ∈ entered
  · exact (h n hnodes hold).mono hgrow
  · rcases (forest.isNew_visit hpos levels).1 node entered hn n ⟨hnodes, hmem, hold⟩ with
      rfl | hparent
    · exact hopen.mono hgrow
    · exact hparent.isOpen

theorem Connected.add (hpos : (forest.nodes.map Node.position).Nodup) {entered : Entered}
    (h : forest.Connected entered) (hn : node ∈ forest.nodes)
    (hopen : forest.IsOpen entered node) : forest.Connected (entered.add node.position) := by
  have hgrow : ∀ p, p ∈ entered → p ∈ entered.add node.position :=
    fun p hp => Entered.mem_add.mpr (Or.inr hp)
  intro n hnodes hmem
  rcases Entered.mem_add.mp hmem with heq | hold
  · obtain rfl := List.inj_on_of_nodup_map hpos hnodes hn heq
    exact hopen.mono hgrow
  · exact (h n hnodes hold).mono hgrow

variable (forest)

/-- The nodes a walk is about to visit: none of them entered, all of them open. -/
structure Awaiting (entered : Entered) (nodes : List Node) : Prop where
  nodup : nodes.Nodup
  mem : ∀ node ∈ nodes, node ∈ forest.nodes
  fresh : ∀ node ∈ nodes, node.position ∉ entered
  isOpen : ∀ node ∈ nodes, forest.IsOpen entered node

variable {forest}

theorem not_mem_of_parent (hids : (forest.nodes.map fun n => n.group.id).Nodup)
    {entered : Entered} {child : Node} (hn : node ∈ forest.nodes) (h : node.position ∉ entered)
    (hopen : forest.IsOpen entered child) (hname : child.group.parent = some node.group.id) :
    False := by
  rcases hopen with hroot | ⟨parent, hparent, hmem, hname'⟩
  · simp [hroot] at hname
  · have hid : parent.group.id = node.group.id := Option.some.inj (hname'.symm.trans hname)
    obtain rfl := List.inj_on_of_nodup_map hids hparent hn hid
    exact h hmem

theorem Awaiting.children (hpos : (forest.nodes.map Node.position).Nodup)
    (hids : (forest.nodes.map fun n => n.group.id).Nodup) {entered : Entered}
    (hconn : forest.Connected entered) (hn : node ∈ forest.nodes)
    (h : node.position ∉ entered) (hopen : forest.IsOpen entered node) :
    forest.Awaiting (entered.add node.position) (forest.childrenOf node.group.id) where
  nodup := (List.Nodup.of_map _ hpos).filter _
  mem child hchild := (mem_childrenOf.mp hchild).1
  fresh child hchild := by
    obtain ⟨hnodes, hname⟩ := mem_childrenOf.mp hchild
    intro hmem
    rcases Entered.mem_add.mp hmem with heq | hold
    · obtain rfl := List.inj_on_of_nodup_map hpos hnodes hn heq
      exact not_mem_of_parent hids hn h hopen hname
    · exact not_mem_of_parent hids hn h (hconn child hnodes hold) hname
  isOpen child hchild :=
    Or.inr ⟨node, hn, by simp, (mem_childrenOf.mp hchild).2⟩

theorem Awaiting.tail (hpos : (forest.nodes.map Node.position).Nodup)
    (hids : (forest.nodes.map fun n => n.group.id).Nodup) {entered : Entered} {rest : List Node}
    (h : forest.Awaiting entered (node :: rest)) (levels : ℕ) :
    forest.Awaiting (forest.visit levels node entered).2 rest where
  nodup := (List.nodup_cons.mp h.nodup).2
  mem n hn := h.mem n (by simp [hn])
  fresh n hn := by
    intro hmem
    have hnew : forest.IsNew entered (forest.visit levels node entered).2 n :=
      ⟨h.mem n (by simp [hn]), hmem, h.fresh n (by simp [hn])⟩
    rcases (forest.isNew_visit hpos levels).1 node entered (h.mem node (by simp)) n hnew with
      rfl | ⟨parent, hparent, hname⟩
    · exact (List.nodup_cons.mp h.nodup).1 hn
    · exact not_mem_of_parent hids hparent.1 hparent.2.2 (h.isOpen n (by simp [hn])) hname
  isOpen n hn := (h.isOpen n (by simp [hn])).mono (forest.subset_visit levels node entered)

/-- A walk over groups with ids of their own never comes to a group again. -/
theorem refused_visit (hpos : (forest.nodes.map Node.position).Nodup)
    (hids : (forest.nodes.map fun n => n.group.id).Nodup) (levels : ℕ) :
    (∀ node entered, node ∈ forest.nodes → node.position ∉ entered →
      forest.IsOpen entered node → forest.Connected entered →
      (forest.visit levels node entered).1.refused = []) ∧
    ∀ nodes entered, forest.Awaiting entered nodes → forest.Connected entered →
      Visit.refusedOfAll (visitEach (forest.visit levels) nodes entered).1 = [] := by
  apply forest.visit_induction ?_ ?_ ?_ ?_ ?_ ?_ levels
  · intro levels node entered h _ hfresh
    exact absurd h hfresh
  · intro node entered h hc _ _ _ _
    simp [visit_cut h hc, Visit.refused]
  · intro node entered h hc _ _ _ _
    simp [visit_leaf h hc, Visit.refused, Visit.refusedOfAll]
  · intro levels node entered h ih hn _ hopen hconn
    rw [visit_succ h, Visit.refused]
    exact ih (Awaiting.children hpos hids hconn hn h hopen) (hconn.add hpos hn hopen)
  · intro levels entered _ _
    rfl
  · intro levels node rest entered hone heach hawait hconn
    have hn := hawait.mem node (by simp)
    have hopen := hawait.isOpen node (by simp)
    rw [visitEach_cons, Visit.refusedOfAll, hone hn (hawait.fresh node (by simp)) hopen hconn,
      heach (hawait.tail hpos hids levels) (hconn.visit hpos hn hopen levels), List.append_nil]

end Forest

namespace Snapshot

theorem nodup_ids_ofSnapshot {groups : Snapshot} {layer : LayerId}
    (hids : ((groups.applicable layer).map FilterGroup.id).Nodup) :
    ((Forest.ofSnapshot groups layer).nodes.map fun n => n.group.id).Nodup := by
  rw [← Forest.groups_ofSnapshot, List.map_map] at hids
  exact hids

/-- The guard against groups entered before does nothing when ids are not repeated. -/
theorem refusedOfAll_visits {groups : Snapshot} {layer : LayerId}
    (hids : ((groups.applicable layer).map FilterGroup.id).Nodup) (maxDepth : ℕ) :
    Visit.refusedOfAll (groups.visits layer maxDepth) = [] := by
  have hpos := Forest.positions_ofSnapshot groups layer
  refine (Forest.refused_visit hpos (nodup_ids_ofSnapshot hids) (maxDepth - 1)).2 _ .none ?_ ?_
  · exact {
      nodup := (List.Nodup.of_map _ hpos).filter _
      mem := fun node hn => (Forest.mem_roots.mp hn).1
      fresh := fun node _ => Entered.not_mem_none _
      isOpen := fun node hn => Or.inl (Forest.mem_roots.mp hn).2 }
  · exact fun node _ hmem => absurd hmem (Entered.not_mem_none _)

end Snapshot
end FilterForest
