import FilterForest.Proofs.Compile.Condition
import FilterForest.Proofs.Forest.Matching

/-!
# What a layer sees of a snapshot

A layer sees the groups that apply to it, in their order, and of their spatial filters the columns
of its own. It compiles to the same for all snapshots of which it sees the same.
-/
namespace FilterForest

variable (layer : LayerId)

/-- Kinds of filters that agree in all but the columns of other layers. -/
inductive FilterKind.AgreesOn : FilterKind → FilterKind → Prop
  | property (a : AttributeFilter) : AgreesOn (.property a) (.property a)
  | spatial {s t : SpatialFilter}
    (columns : s.columns.filter (·.layer = layer) = t.columns.filter (·.layer = layer))
    (geometries : s.geometries = t.geometries) (buffer : s.buffer = t.buffer) :
    AgreesOn (.spatial s) (.spatial t)

structure Filter.AgreesOn (f f' : Filter) : Prop where
  id : f.id = f'.id
  disabled : f.disabled = f'.disabled
  kind : f.kind.AgreesOn layer f'.kind

/-- Groups that agree in all but the layers they apply to and the columns of other layers. -/
structure FilterGroup.AgreesOn (g g' : FilterGroup) : Prop where
  id : g.id = g'.id
  parent : g.parent = g'.parent
  operator : g.operator = g'.operator
  filters : List.Forall₂ (Filter.AgreesOn layer) g.filters g'.filters

/-- Snapshots whose groups for a layer agree place by place. -/
def Snapshot.AgreesOn (groups groups' : Snapshot) : Prop :=
  List.Forall₂ (FilterGroup.AgreesOn layer) (groups.applicable layer) (groups'.applicable layer)

/-- A spatial filter without the columns of other layers. -/
def SpatialFilter.seenBy (f : SpatialFilter) : SpatialFilter :=
  { f with columns := f.columns.filter (·.layer = layer) }

def FilterKind.seenBy : FilterKind → FilterKind
  | property a => property a
  | spatial s => spatial (s.seenBy layer)

def Filter.seenBy (f : Filter) : Filter := { f with kind := f.kind.seenBy layer }

/-- A group of one layer, without the columns of other layers. -/
def FilterGroup.seenBy (g : FilterGroup) : FilterGroup :=
  { g with layers := .ofList [layer], filters := g.filters.map (Filter.seenBy layer) }

/-- The groups for a layer, without what is there for other layers. -/
def Snapshot.seenBy (groups : Snapshot) : Snapshot :=
  (groups.applicable layer).map (FilterGroup.seenBy layer)

variable {layer}

theorem Filter.AgreesOn.seenBy {f f' : Filter} (h : f.AgreesOn layer f') :
    f.seenBy layer = f'.seenBy layer := by
  obtain ⟨id, disabled, kind⟩ := f
  obtain ⟨id', disabled', kind'⟩ := f'
  obtain ⟨rfl, rfl, hkind⟩ := h
  cases hkind with
  | property a => rfl
  | spatial columns geometries buffer =>
    simp only [Filter.seenBy, FilterKind.seenBy, SpatialFilter.seenBy, columns, geometries, buffer]

theorem map_eq_map_of_forall₂ {α β : Type} {r : α → α → Prop} {f : α → β}
    (hr : ∀ a a', r a a' → f a = f a') {as as' : List α} (h : List.Forall₂ r as as') :
    as.map f = as'.map f := by
  rw [← List.forall₂_eq_eq_eq, List.forall₂_map_left_iff, List.forall₂_map_right_iff]
  exact h.imp hr

theorem FilterGroup.AgreesOn.seenBy {g g' : FilterGroup} (h : g.AgreesOn layer g') :
    g.seenBy layer = g'.seenBy layer := by
  have hfilters := map_eq_map_of_forall₂ (fun _ _ hf => hf.seenBy) h.filters
  simp only [FilterGroup.seenBy, h.id, h.parent, h.operator, hfilters]

theorem Snapshot.AgreesOn.seenBy {groups groups' : Snapshot} (h : groups.AgreesOn layer groups') :
    groups.seenBy layer = groups'.seenBy layer :=
  map_eq_map_of_forall₂ (fun _ _ hg => hg.seenBy) h

variable (layer)

theorem SpatialFilter.compile_seenBy (f : SpatialFilter) :
    (f.seenBy layer).compile layer = f.compile layer := by
  have hcolumns : (f.seenBy layer).columnsFor layer = f.columnsFor layer := by
    simp [columnsFor, SpatialFilter.seenBy]
  have hoperands : (f.seenBy layer).operands = f.operands := rfl
  rw [compile, compile, hcolumns, hoperands]

namespace Filter

variable (f : Filter)

theorem compile_seenBy : (f.seenBy layer).compile layer = f.compile layer := by
  obtain ⟨id, disabled, a | s⟩ := f
  · rfl
  · exact s.compile_seenBy layer

theorem skip?_seenBy : (f.seenBy layer).skip? = f.skip? := by
  obtain ⟨id, disabled, a | s⟩ := f <;> rfl

theorem isActive_seenBy : (f.seenBy layer).isActive = f.isActive := by
  rw [isActive, isActive, skip?_seenBy]

theorem generatedBy_seenBy : (f.seenBy layer).generatedBy = f.generatedBy := by
  obtain ⟨id, disabled, a | s⟩ := f <;> rfl

end Filter

namespace FilterGroup

variable (g : FilterGroup)

theorem filter_seenBy {p : Filter → Bool} (hp : ∀ f : Filter, p (f.seenBy layer) = p f) :
    (g.seenBy layer).filters.filter p = (g.filters.filter p).map (Filter.seenBy layer) := by
  simp only [FilterGroup.seenBy, List.filter_map, Function.comp_def, hp]

theorem generatedFrom_seenBy (id : String) :
    (g.seenBy layer).generatedFrom id = (g.generatedFrom id).map (Filter.seenBy layer) := by
  rw [generatedFrom_eq, generatedFrom_eq, g.filter_seenBy layer]
  intro f
  rw [f.isActive_seenBy, f.generatedBy_seenBy]

theorem primaries_seenBy :
    (g.seenBy layer).primaries = g.primaries.map (Filter.seenBy layer) := by
  rw [primaries_eq, primaries_eq, g.filter_seenBy layer]
  intro f
  rw [f.isActive_seenBy, f.generatedBy_seenBy]

theorem compilePrimary_seenBy (primary : Filter) :
    (g.seenBy layer).compilePrimary layer (primary.seenBy layer) =
      g.compilePrimary layer primary := by
  have hid : (primary.seenBy layer).id = primary.id := rfl
  have hcompile : Filter.compile layer ∘ Filter.seenBy layer = Filter.compile layer :=
    funext (Filter.compile_seenBy layer)
  rw [compilePrimary, compilePrimary, hid, generatedFrom_seenBy, ← List.map_cons, List.map_map,
    hcompile]

theorem terms_seenBy : (g.seenBy layer).terms layer = g.terms layer := by
  have hskip :
      (g.seenBy layer).filters.filterMap Filter.skip? = g.filters.filterMap Filter.skip? := by
    simp only [FilterGroup.seenBy, List.filterMap_map, Function.comp_def, Filter.skip?_seenBy]
  have hprimary : (g.seenBy layer).compilePrimary layer ∘ Filter.seenBy layer =
      g.compilePrimary layer :=
    funext (g.compilePrimary_seenBy layer)
  rw [terms, terms, hskip, primaries_seenBy, List.map_map, hprimary]

end FilterGroup

namespace Snapshot

variable (groups : Snapshot)

theorem applicable_seenBy : (groups.seenBy layer).applicable layer = groups.seenBy layer := by
  rw [applicable, seenBy, List.filter_eq_self]
  intro g hg
  obtain ⟨g, _, rfl⟩ := List.mem_map.mp hg
  simp [FilterGroup.seenBy, FilterGroup.appliesTo]

/-- A layer compiles to what it compiles to with nothing there for other layers. -/
theorem compile_seenBy (maxDepth : ℕ) :
    (groups.seenBy layer).compile layer maxDepth = groups.compile layer maxDepth := by
  have hgroups : (Forest.ofSnapshot (groups.seenBy layer) layer).nodes.map Node.group =
      ((Forest.ofSnapshot groups layer).mapGroup (FilterGroup.seenBy layer)).nodes.map
        Node.group := by
    rw [Forest.groups_mapGroup, Forest.groups_ofSnapshot, Forest.groups_ofSnapshot,
      applicable_seenBy, seenBy]
  have hpositions : (((Forest.ofSnapshot groups layer).mapGroup
      (FilterGroup.seenBy layer)).nodes.map Node.position).Nodup := by
    rw [Forest.positions_mapGroup]
    exact Forest.positions_ofSnapshot groups layer
  rw [← Forest.compile_ofSnapshot, ← Forest.compile_ofSnapshot,
    Forest.compile_congr (Forest.positions_ofSnapshot _ _) hpositions hgroups]
  refine Forest.compile_mapGroup ?_ ?_ ?_ (FilterGroup.terms_seenBy layer) maxDepth <;>
    exact fun _ => rfl

variable {layer groups}

/-- Layers that see the same compile to the same, and report the same. -/
theorem AgreesOn.compile {groups' : Snapshot} (h : groups.AgreesOn layer groups') (maxDepth : ℕ) :
    groups.compile layer maxDepth = groups'.compile layer maxDepth := by
  rw [← compile_seenBy, h.seenBy, compile_seenBy]

end Snapshot
end FilterForest
