import FilterForest.Proofs.Forest.Reachability

/-!
# The index of a forest

The links of a forest can be gathered in one pass over its nodes: each node goes behind those that
name the same parent, in a table of lists under their ids. What the table has under any id are the
children of that id, so the roots and the lists of the table hold every node of the forest once.

The account of entered groups goes by positions alone. A group that is entered for the first time
is new whatever groups like it were entered before.
-/
namespace FilterForest

/-- The groups of a snapshot, each at its position. -/
def Snapshot.nodes (groups : Snapshot) : List Node := groups.mapIdx Node.mk

namespace Forest

/-- Nodes under what they name as their parent, in the order they came. -/
structure Index where
  roots : List Node
  children : Std.HashMap String (List Node)

namespace Index

def empty : Index := ⟨[], ∅⟩

variable (index : Index)

def childrenOf (id : String) : List Node := index.children.getD id []

/-- The ids that the table has a list for. -/
def ids : List String := index.children.keys

/-- Puts a node behind those that name the same parent. -/
def add (node : Node) : Index :=
  match node.group.parent with
  | none => { index with roots := index.roots ++ [node] }
  | some id =>
    { index with children := index.children.insert id (index.childrenOf id ++ [node]) }

/-- Gathers nodes one after the other. -/
def ofNodes (nodes : List Node) : Index := nodes.foldl add empty

/-- Gathers the groups of a snapshot that apply to a layer. -/
def ofSnapshot (groups : Snapshot) (layer : LayerId) : Index :=
  ofNodes (groups.nodes.filter fun node => node.group.appliesTo layer)

theorem nodup_ids : index.ids.Nodup := index.children.nodup_keys

theorem roots_add (node : Node) :
    (index.add node).roots = index.roots ++ if node.group.parent = none then [node] else [] := by
  unfold add
  split
  · next h => rw [if_pos h]
  · next id h => rw [if_neg (h ▸ Option.some_ne_none id), List.append_nil]

theorem childrenOf_add (node : Node) (id : String) :
    (index.add node).childrenOf id =
      index.childrenOf id ++ if node.group.parent = some id then [node] else [] := by
  unfold add
  split
  · next h =>
    rw [h, if_neg (Option.some_ne_none id).symm, List.append_nil]
    rfl
  · next parent h =>
    rw [childrenOf, Std.HashMap.getD_insert]
    by_cases hid : parent = id
    · subst hid
      rw [if_pos (beq_self_eq_true parent), if_pos h]
    · rw [if_neg (mt eq_of_beq hid), h, if_neg (mt Option.some.inj hid), List.append_nil]
      rfl

theorem mem_ids_add (node : Node) (id : String) :
    id ∈ (index.add node).ids ↔ node.group.parent = some id ∨ id ∈ index.ids := by
  unfold add
  split
  · next h => simp [h, ids]
  · next parent h => simp [h, ids]

/-- An index that finds the links between these nodes. -/
structure Finds (index : Index) (nodes : List Node) : Prop where
  roots : index.roots = (Forest.mk nodes).roots
  childrenOf : ∀ id, index.childrenOf id = (Forest.mk nodes).childrenOf id
  mem_ids : ∀ id, id ∈ index.ids ↔ (Forest.mk nodes).childrenOf id ≠ []

theorem finds_empty : empty.Finds [] where
  roots := rfl
  childrenOf _ := Std.HashMap.getD_empty
  mem_ids id := by simp [empty, ids, Forest.childrenOf]

end Index

theorem roots_concat (nodes : List Node) (node : Node) :
    (mk (nodes ++ [node])).roots =
      (mk nodes).roots ++ if node.group.parent = none then [node] else [] := by
  simp [roots, List.filter_singleton]

theorem childrenOf_concat (nodes : List Node) (node : Node) (id : String) :
    (mk (nodes ++ [node])).childrenOf id =
      (mk nodes).childrenOf id ++ if node.group.parent = some id then [node] else [] := by
  simp [childrenOf, List.filter_singleton]

namespace Index

variable {index : Index} {nodes : List Node}

/-- One more node changes what is found under one id, and that as it changes the links. -/
theorem Finds.add (h : index.Finds nodes) (node : Node) :
    (index.add node).Finds (nodes ++ [node]) where
  roots := by rw [roots_add, roots_concat, h.roots]
  childrenOf id := by rw [childrenOf_add, childrenOf_concat, h.childrenOf]
  mem_ids id := by
    rw [mem_ids_add, childrenOf_concat, h.mem_ids]
    split <;> simp [*]

/-- What is gathered in one pass finds the links of all nodes. -/
theorem finds_ofNodes (nodes : List Node) : (ofNodes nodes).Finds nodes := by
  -- From the end, as the last node is the one that is added last.
  induction nodes using List.reverseRecOn with
  | nil => exact finds_empty
  | append_singleton nodes node ih =>
    rw [ofNodes, List.foldl_concat]
    exact ih.add node

end Index

variable {forest : Forest} {ids : List String}

/-- No node is a root and a child, or a child of two ids. -/
theorem nodup_linked (hnodes : forest.nodes.Nodup) (hids : ids.Nodup) :
    (forest.roots ++ ids.flatMap forest.childrenOf).Nodup := by
  rw [List.nodup_append', List.nodup_flatMap]
  refine ⟨hnodes.filter _, ⟨fun id _ => hnodes.filter _, ?_⟩, ?_⟩
  · refine hids.imp fun {id other} hne node hid hother => hne ?_
    exact Option.some.inj ((mem_childrenOf.mp hid).2.symm.trans (mem_childrenOf.mp hother).2)
  · intro node hroot hchild
    obtain ⟨id, -, hid⟩ := List.mem_flatMap.mp hchild
    exact nomatch (mem_roots.mp hroot).2.symm.trans (mem_childrenOf.mp hid).2

/-- The roots and the children of all ids that have any are all nodes. -/
theorem mem_linked (hids : ∀ id, forest.childrenOf id ≠ [] → id ∈ ids) (node : Node) :
    node ∈ forest.roots ++ ids.flatMap forest.childrenOf ↔ node ∈ forest.nodes := by
  rw [List.mem_append, List.mem_flatMap]
  constructor
  · rintro (hroot | ⟨id, -, hchild⟩)
    · exact (mem_roots.mp hroot).1
    · exact (mem_childrenOf.mp hchild).1
  · intro hnode
    cases hparent : node.group.parent with
    | none => exact .inl (mem_roots.mpr ⟨hnode, hparent⟩)
    | some id =>
      have hchild : node ∈ forest.childrenOf id := mem_childrenOf.mpr ⟨hnode, hparent⟩
      exact .inr ⟨id, hids id (List.ne_nil_of_mem hchild), hchild⟩

theorem nodes_ofSnapshot (groups : Snapshot) (layer : LayerId) :
    (ofSnapshot groups layer).nodes =
      groups.nodes.filter fun node => node.group.appliesTo layer := by
  rw [Snapshot.nodes, List.mapIdx_eq_zipIdx_map, List.filter_map]
  rfl

theorem nodup_nodes_ofSnapshot (groups : Snapshot) (layer : LayerId) :
    (ofSnapshot groups layer).nodes.Nodup :=
  .of_map Node.position (positions_ofSnapshot groups layer)

end Forest

namespace Entered

variable {entered : Entered} {position : ℕ}

/-- The account after groups at these positions were entered one after the other. -/
def after (calls : List ℕ) : Entered :=
  calls.foldl (fun entered position => (entered.enter position).2) .none

theorem after_concat (calls : List ℕ) (position : ℕ) :
    after (calls ++ [position]) = ((after calls).enter position).2 :=
  List.foldl_concat ..

theorem nodup_enter (h : entered.positions.Nodup) (position : ℕ) :
    (entered.enter position).2.positions.Nodup := by
  by_cases hmem : position ∈ entered
  · rwa [enter_of_mem hmem]
  · rw [enter_of_not_mem hmem]
    exact List.nodup_cons.mpr ⟨hmem, h⟩

theorem mem_after {calls : List ℕ} : position ∈ after calls ↔ position ∈ calls := by
  induction calls using List.reverseRecOn with
  | nil => exact iff_of_false (not_mem_none position) List.not_mem_nil
  | append_singleton calls call ih =>
    rw [after_concat, mem_enter, ih, List.mem_append, List.mem_singleton, or_comm]

theorem nodup_after (calls : List ℕ) : (after calls).positions.Nodup := by
  induction calls using List.reverseRecOn with
  | nil => exact List.nodup_nil
  | append_singleton calls call ih =>
    rw [after_concat]
    exact nodup_enter ih call

theorem size_after (calls : List ℕ) : (after calls).size = calls.toFinset.card := by
  rw [size, ← List.toFinset_card_of_nodup (nodup_after calls)]
  congr 1
  ext position
  rw [List.mem_toFinset, List.mem_toFinset, ← mem_iff, mem_after]

end Entered

namespace Forest

/-- The groups of a layer are linked by the parents they name, each of them once. -/
structure IsPartition (groups : Snapshot) (layer : LayerId) : Prop where
  roots : (ofSnapshot groups layer).roots = groups.nodes.filter fun node =>
    node.group.appliesTo layer ∧ node.group.parent = none
  childrenOf : ∀ id, (ofSnapshot groups layer).childrenOf id = groups.nodes.filter fun node =>
    node.group.appliesTo layer ∧ node.group.parent = some id
  index_roots : (Index.ofSnapshot groups layer).roots = (ofSnapshot groups layer).roots
  index_childrenOf : ∀ id,
    (Index.ofSnapshot groups layer).childrenOf id = (ofSnapshot groups layer).childrenOf id
  nodup_ids : (Index.ofSnapshot groups layer).ids.Nodup
  mem_ids_iff : ∀ id, id ∈ (Index.ofSnapshot groups layer).ids ↔
    (ofSnapshot groups layer).childrenOf id ≠ []
  nodup : ((ofSnapshot groups layer).roots ++
    (Index.ofSnapshot groups layer).ids.flatMap (ofSnapshot groups layer).childrenOf).Nodup
  mem_iff : ∀ node, node ∈ (ofSnapshot groups layer).roots ++
      (Index.ofSnapshot groups layer).ids.flatMap (ofSnapshot groups layer).childrenOf ↔
    node ∈ groups.nodes ∧ node.group.appliesTo layer = true

theorem isPartition (groups : Snapshot) (layer : LayerId) : IsPartition groups layer := by
  have hfinds : (Index.ofSnapshot groups layer).Finds (ofSnapshot groups layer).nodes := by
    rw [nodes_ofSnapshot]
    exact Index.finds_ofNodes _
  have hids := (Index.ofSnapshot groups layer).nodup_ids
  refine ⟨?_, fun id => ?_, hfinds.roots, hfinds.childrenOf, hids, hfinds.mem_ids, ?_, ?_⟩
  · rw [roots, nodes_ofSnapshot, List.filter_filter]
    simp [and_comm]
  · rw [childrenOf, nodes_ofSnapshot, List.filter_filter]
    simp [and_comm]
  · exact nodup_linked (nodup_nodes_ofSnapshot groups layer) hids
  · intro node
    rw [mem_linked fun id => (hfinds.mem_ids id).mpr, nodes_ofSnapshot, List.mem_filter]

/-- The roots of a layer are its groups that name no parent, the children of an id those that name
it, all in the order of the snapshot, and an index gathered in one pass finds the same under every
id. So every group that applies to the layer occurs once among the roots and the children of the
different ids there are, and no other group does. Whatever was entered before, entering a position
answers that it is new exactly if it was not entered yet, and as many positions are entered as
there were different ones. -/
theorem links_partition_and_enter_once (groups : Snapshot) (layer : LayerId) :
    IsPartition groups layer ∧
    (∀ calls position, ((Entered.after calls).enter position).1 = true ↔ position ∉ calls) ∧
    ∀ calls, (Entered.after calls).size = calls.toFinset.card := by
  refine ⟨isPartition groups layer, fun calls position => ?_, Entered.size_after⟩
  rw [Entered.enter_fst_iff, Entered.mem_after]

end Forest
end FilterForest
