import FilterForest.Proofs.Forest.Reachability
import FilterForest.Compile.Tree

/-!
# Walks over forests that match

Two forests match where a map takes the children of a node to the children of its image and keeps
positions apart. Walks over them then leave the same record up to the map. So positions are only
names, and compiling a layer depends on nothing but the groups that apply to it, in their order.
-/
namespace FilterForest

namespace Visit

mutual

def map (f : Node → Node) : Visit → Visit
  | again node => again (f node)
  | cut node => cut (f node)
  | entered node children => entered (f node) (mapAll f children)

def mapAll (f : Node → Node) : List Visit → List Visit
  | [] => []
  | visit :: rest => map f visit :: mapAll f rest

end

mutual

theorem map_id : ∀ visit : Visit, visit.map id = visit
  | again node => rfl
  | cut node => rfl
  | entered node children => by rw [map, mapAll_id children, id]

theorem mapAll_id : ∀ visits : List Visit, mapAll id visits = visits
  | [] => rfl
  | visit :: rest => by rw [mapAll, map_id visit, mapAll_id rest]

end

variable (layer : LayerId) {f : Node → Node}

mutual

theorem compile_map (hoperator : ∀ node, (f node).group.operator = node.group.operator)
    (hterms : ∀ node, (f node).group.terms layer = node.group.terms layer) : ∀ visit : Visit,
    compile layer (visit.map f) = compile layer visit
  | again node => rfl
  | cut node => by rw [map, compile, compile, hoperator, hterms]
  | entered node children => by
    rw [map, compile, compile, hoperator, hterms, compileEach_mapAll hoperator hterms children]

theorem compileEach_mapAll (hoperator : ∀ node, (f node).group.operator = node.group.operator)
    (hterms : ∀ node, (f node).group.terms layer = node.group.terms layer) :
    ∀ visits : List Visit, compileEach layer (mapAll f visits) = compileEach layer visits
  | [] => rfl
  | visit :: rest => by
    rw [mapAll, compileEach, compileEach, compile_map hoperator hterms visit,
      compileEach_mapAll hoperator hterms rest]

end

end Visit

def Node.mapGroup (change : FilterGroup → FilterGroup) (node : Node) : Node :=
  { node with group := change node.group }

namespace Forest

/-- The nodes of which `p` holds, with their children, occur in another forest as their images. -/
structure Matches (forest forest' : Forest) (p : Node → Prop) (f : Node → Node) : Prop where
  children : ∀ node, p node →
    forest'.childrenOf (f node).group.id = (forest.childrenOf node.group.id).map f
  closed : ∀ node, p node → ∀ child ∈ forest.childrenOf node.group.id, p child
  position : ∀ m n, p m → p n → ((f m).position = (f n).position ↔ m.position = n.position)

def EnteredMatch (p : Node → Prop) (f : Node → Node) (entered entered' : Entered) : Prop :=
  ∀ node, p node → ((f node).position ∈ entered' ↔ node.position ∈ entered)

variable {forest forest' : Forest} {p : Node → Prop} {f : Node → Node}

theorem EnteredMatch.add (h : forest.Matches forest' p f) {entered entered' : Entered}
    (hmatch : EnteredMatch p f entered entered') {node : Node} (hp : p node) :
    EnteredMatch p f (entered.add node.position) (entered'.add (f node).position) := by
  intro other hother
  rw [Entered.mem_add, Entered.mem_add, h.position other node hother hp, hmatch other hother]

theorem Matches.visit (h : forest.Matches forest' p f) (levels : ℕ) :
    (∀ node entered, p node → ∀ entered', EnteredMatch p f entered entered' →
      (forest'.visit levels (f node) entered').1 = (forest.visit levels node entered).1.map f ∧
      EnteredMatch p f (forest.visit levels node entered).2
        (forest'.visit levels (f node) entered').2) ∧
    ∀ nodes entered, (∀ node ∈ nodes, p node) → ∀ entered', EnteredMatch p f entered entered' →
      (visitEach (forest'.visit levels) (nodes.map f) entered').1 =
        Visit.mapAll f (visitEach (forest.visit levels) nodes entered).1 ∧
      EnteredMatch p f (visitEach (forest.visit levels) nodes entered).2
        (visitEach (forest'.visit levels) (nodes.map f) entered').2 := by
  apply forest.visit_induction ?_ ?_ ?_ ?_ ?_ ?_ levels
  · intro levels node entered hmem hp entered' hmatch
    rw [visit_of_mem levels hmem, visit_of_mem levels ((hmatch node hp).mpr hmem)]
    exact ⟨rfl, hmatch⟩
  · intro node entered hmem hc hp entered' hmatch
    have hmem' : (f node).position ∉ entered' := fun hin => hmem ((hmatch node hp).mp hin)
    have hc' : forest'.childrenOf (f node).group.id ≠ [] := by
      rw [h.children node hp]
      simpa using hc
    rw [visit_cut hmem hc, visit_cut hmem' hc']
    exact ⟨rfl, hmatch.add h hp⟩
  · intro node entered hmem hc hp entered' hmatch
    have hmem' : (f node).position ∉ entered' := fun hin => hmem ((hmatch node hp).mp hin)
    have hc' : forest'.childrenOf (f node).group.id = [] := by
      rw [h.children node hp, hc, List.map_nil]
    rw [visit_leaf hmem hc, visit_leaf hmem' hc']
    exact ⟨rfl, hmatch.add h hp⟩
  · intro levels node entered hmem ih hp entered' hmatch
    have hmem' : (f node).position ∉ entered' := fun hin => hmem ((hmatch node hp).mp hin)
    have hchildren := ih (h.closed node hp) _ (hmatch.add h hp)
    rw [visit_succ hmem, visit_succ hmem', h.children node hp]
    exact ⟨by rw [Visit.map, hchildren.1], hchildren.2⟩
  · intro levels entered _ entered' hmatch
    exact ⟨rfl, hmatch⟩
  · intro levels node rest entered hone heach hp entered' hmatch
    obtain ⟨hfirst, hmiddle⟩ := hone (hp node (by simp)) entered' hmatch
    obtain ⟨hrest, hafter⟩ := heach (fun m hm => hp m (by simp [hm])) _ hmiddle
    rw [List.map_cons, visitEach_cons, visitEach_cons]
    exact ⟨by rw [Visit.mapAll, hfirst, hrest], hafter⟩

theorem Matches.walk (h : forest.Matches forest' p f) (hroots : forest'.roots = forest.roots.map f)
    (hp : ∀ root ∈ forest.roots, p root) (maxDepth : ℕ) :
    forest'.walk maxDepth = Visit.mapAll f (forest.walk maxDepth) := by
  rw [Forest.walk, Forest.walk, hroots]
  refine ((h.visit (maxDepth - 1)).2 forest.roots .none hp .none ?_).1
  exact fun node _ => iff_of_false (Entered.not_mem_none _) (Entered.not_mem_none _)

def compile (forest : Forest) (layer : LayerId) (maxDepth : ℕ) : Traced Predicate := do
  let roots ← Traced.collect ((forest.walk maxDepth).map (Visit.compile layer))
  .log [.treeCompiled]
  .ofOption (Predicate.combine .and roots)

theorem compile_ofSnapshot (groups : Snapshot) (layer : LayerId) (maxDepth : ℕ) :
    (ofSnapshot groups layer).compile layer maxDepth = groups.compile layer maxDepth := rfl

variable {layer : LayerId}

/-- Walks over forests that match in their roots compile to the same, if the map changes neither the
operators of groups nor their own conditions. -/
theorem Matches.map_compile_walk (h : forest.Matches forest' p f)
    (hroots : forest'.roots = forest.roots.map f) (hp : ∀ root ∈ forest.roots, p root)
    (hoperator : ∀ node, (f node).group.operator = node.group.operator)
    (hterms : ∀ node, (f node).group.terms layer = node.group.terms layer) (maxDepth : ℕ) :
    (forest'.walk maxDepth).map (Visit.compile layer) =
      (forest.walk maxDepth).map (Visit.compile layer) := by
  rw [h.walk hroots hp, ← Visit.compileEach_eq_map, ← Visit.compileEach_eq_map,
    Visit.compileEach_mapAll layer hoperator hterms]

theorem Matches.compile (h : forest.Matches forest' p f)
    (hroots : forest'.roots = forest.roots.map f) (hp : ∀ root ∈ forest.roots, p root)
    (hoperator : ∀ node, (f node).group.operator = node.group.operator)
    (hterms : ∀ node, (f node).group.terms layer = node.group.terms layer) (maxDepth : ℕ) :
    forest'.compile layer maxDepth = forest.compile layer maxDepth := by
  rw [Forest.compile, Forest.compile, h.map_compile_walk hroots hp hoperator hterms]

variable (forest)

/-- A node at the place it has among the nodes of a forest. -/
def renumber (node : Node) : Node :=
  ⟨(forest.nodes.map Node.position).idxOf node.position, node.group⟩

/-- The forest with the places of nodes as their positions. -/
def renumbered : Forest := ⟨forest.nodes.map forest.renumber⟩

theorem nodes_renumbered (hpos : (forest.nodes.map Node.position).Nodup) :
    forest.renumbered.nodes = (forest.nodes.map Node.group).zipIdx.map fun (group, position) =>
      ⟨position, group⟩ := by
  apply List.ext_getElem
  · simp [renumbered]
  · intro i hi hi'
    have hplace := hpos.idxOf_getElem i (by simpa [renumbered] using hi)
    rw [List.getElem_map] at hplace
    simp [renumbered, renumber, hplace]

theorem matches_renumbered :
    forest.Matches forest.renumbered (· ∈ forest.nodes) forest.renumber where
  children node _ := by
    rw [childrenOf, childrenOf, renumbered, List.filter_map]
    rfl
  closed node _ child hchild := (mem_childrenOf.mp hchild).1
  position m n hm hn := List.idxOf_inj (List.mem_map_of_mem hm)

theorem map_compile_walk_renumbered (layer : LayerId) (maxDepth : ℕ) :
    (forest.renumbered.walk maxDepth).map (Visit.compile layer) =
      (forest.walk maxDepth).map (Visit.compile layer) := by
  refine forest.matches_renumbered.map_compile_walk ?_ (fun root hroot => (mem_roots.mp hroot).1)
    (fun _ => rfl) (fun _ => rfl) maxDepth
  rw [roots, roots, renumbered, List.filter_map]
  rfl

variable {forest}

/-- Positions are only names: the walk of a forest compiles to what its groups in their order
compile to. -/
theorem map_compile_walk_congr (hpos : (forest.nodes.map Node.position).Nodup)
    (hpos' : (forest'.nodes.map Node.position).Nodup)
    (hgroups : forest.nodes.map Node.group = forest'.nodes.map Node.group) (maxDepth : ℕ) :
    (forest.walk maxDepth).map (Visit.compile layer) =
      (forest'.walk maxDepth).map (Visit.compile layer) := by
  have hrenumbered : forest.renumbered = forest'.renumbered := by
    rw [Forest.mk.injEq, nodes_renumbered _ hpos, nodes_renumbered _ hpos', hgroups]
  rw [← map_compile_walk_renumbered, hrenumbered, map_compile_walk_renumbered]

theorem compile_congr (hpos : (forest.nodes.map Node.position).Nodup)
    (hpos' : (forest'.nodes.map Node.position).Nodup)
    (hgroups : forest.nodes.map Node.group = forest'.nodes.map Node.group) (maxDepth : ℕ) :
    forest.compile layer maxDepth = forest'.compile layer maxDepth := by
  rw [Forest.compile, Forest.compile, map_compile_walk_congr hpos hpos' hgroups]

def filter (forest : Forest) (keep : Node → Bool) : Forest := ⟨forest.nodes.filter keep⟩

theorem nodup_positions_filter (hpos : (forest.nodes.map Node.position).Nodup)
    (keep : Node → Bool) : ((forest.filter keep).nodes.map Node.position).Nodup :=
  hpos.sublist (List.filter_sublist.map _)

/-- Nodes that cannot be come to from the roots can be left out. -/
theorem compile_filter {keep : Node → Bool} (hroots : ∀ root ∈ forest.roots, keep root = true)
    (hchildren : ∀ node, keep node = true →
      ∀ child ∈ forest.childrenOf node.group.id, keep child = true) (maxDepth : ℕ) :
    (forest.filter keep).compile layer maxDepth = forest.compile layer maxDepth := by
  have hmatches : forest.Matches (forest.filter keep) (fun node => keep node = true) id :=
    { children := fun node hnode => by
        rw [List.map_id, childrenOf, filter, List.filter_comm]
        exact List.filter_eq_self.mpr (hchildren node hnode)
      closed := hchildren
      position := fun _ _ _ _ => Iff.rfl }
  refine hmatches.compile ?_ hroots (fun _ => rfl) (fun _ => rfl) maxDepth
  rw [List.map_id, roots, filter, List.filter_comm]
  exact List.filter_eq_self.mpr hroots

variable (forest)

def mapGroup (change : FilterGroup → FilterGroup) : Forest :=
  ⟨forest.nodes.map (Node.mapGroup change)⟩

variable (change : FilterGroup → FilterGroup)

theorem groups_mapGroup :
    (forest.mapGroup change).nodes.map Node.group = (forest.nodes.map Node.group).map change := by
  simp [mapGroup, Node.mapGroup]

theorem positions_mapGroup :
    (forest.mapGroup change).nodes.map Node.position = forest.nodes.map Node.position := by
  simp [mapGroup, Node.mapGroup]

variable {forest change}

theorem ofSnapshot_map (hlayers : ∀ g, (change g).layers = g.layers) (groups : Snapshot) :
    ofSnapshot (groups.map change) layer = (ofSnapshot groups layer).mapGroup change := by
  have happlies : ∀ g, (change g).appliesTo layer = g.appliesTo layer := fun g => by
    rw [FilterGroup.appliesTo, FilterGroup.appliesTo, hlayers]
  rw [ofSnapshot, ofSnapshot, mapGroup, List.zipIdx_map, List.filter_map, List.map_map,
    List.map_map]
  simp only [Function.comp_def, Prod.map_fst, happlies]
  rfl

theorem roots_mapGroup (hparent : ∀ g, (change g).parent = g.parent) :
    (forest.mapGroup change).roots = forest.roots.map (Node.mapGroup change) := by
  simp only [roots, mapGroup, List.filter_map, Function.comp_def, Node.mapGroup, hparent]

theorem matches_mapGroup (hid : ∀ g, (change g).id = g.id)
    (hparent : ∀ g, (change g).parent = g.parent) :
    forest.Matches (forest.mapGroup change) (fun _ => True) (Node.mapGroup change) where
  children node _ := by
    simp only [childrenOf, mapGroup, List.filter_map, Function.comp_def, Node.mapGroup, hid,
      hparent]
  closed _ _ _ _ := trivial
  position _ _ _ _ := Iff.rfl

/-- Groups can be changed in what neither links them nor compiles. -/
theorem compile_mapGroup (hid : ∀ g, (change g).id = g.id)
    (hparent : ∀ g, (change g).parent = g.parent)
    (hoperator : ∀ g, (change g).operator = g.operator)
    (hterms : ∀ g, (change g).terms layer = g.terms layer) (maxDepth : ℕ) :
    (forest.mapGroup change).compile layer maxDepth = forest.compile layer maxDepth :=
  (matches_mapGroup hid hparent).compile (roots_mapGroup hparent) (fun _ _ => trivial)
    (fun node => hoperator node.group) (fun node => hterms node.group) maxDepth

end Forest

namespace Snapshot

variable (groups : Snapshot) (layer : LayerId)

theorem applicable_applicable :
    Snapshot.applicable (groups.applicable layer) layer = groups.applicable layer := by
  simp [applicable]

/-- Compiling a layer depends on the groups that apply to it and on nothing else. -/
theorem compile_applicable (maxDepth : ℕ) :
    (groups.applicable layer).compile layer maxDepth = groups.compile layer maxDepth := by
  refine Forest.compile_congr (Forest.positions_ofSnapshot _ _) (Forest.positions_ofSnapshot _ _)
    ?_ maxDepth
  rw [Forest.groups_ofSnapshot, Forest.groups_ofSnapshot, applicable_applicable]

variable {groups layer}

theorem result_compile_of_not_mem_layers (h : layer ∉ groups.layers) (maxDepth : ℕ) :
    (groups.compile layer maxDepth).result = none := by
  have hnone : groups.applicable layer = [] := by
    rw [applicable, List.filter_eq_nil_iff]
    exact fun g hg happ => h (groups.mem_layers.mpr ⟨g, hg, g.appliesTo_iff.mp happ⟩)
  rw [← compile_applicable, hnone]
  rfl

end Snapshot
end FilterForest
