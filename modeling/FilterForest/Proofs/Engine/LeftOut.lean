import FilterForest.Proofs.Compile.Condition
import FilterForest.Proofs.Engine.Unreachable
import Mathlib.Data.Set.Card

/-!
# Groups that are left out

A group of a layer that compiling the layer does not enter is reported if it hangs on a root, for
then it is too deep, and if it hangs on an orphan. Other groups can be left out without a warning:
their parents run in a circle, or lead up to a parent that is there for other layers only.
-/
namespace FilterForest

open Relation (TransGen)

namespace Snapshot

variable {groups : Snapshot} {layer : LayerId} {maxDepth position : ℕ} {g : FilterGroup}

theorem LeadsTo.mem {top : FilterGroup} (h : groups.LeadsTo top g) (hg : g ∈ groups) :
    top ∈ groups := by
  rcases h.cases_head with rfl | ⟨child, hchild, _⟩
  · exact hg
  · exact hchild.parent_mem

/-- The groups that one comes to in going up from a group. -/
def above (groups : Snapshot) (g : FilterGroup) : Set FilterGroup :=
  {higher | TransGen groups.IsChild higher g}

/-- Going up from a group, one comes to a circle or to a group whose parent is not there. -/
theorem exists_leadsTo_circle_or_top (hg : g ∈ groups) : ∃ top, groups.LeadsTo top g ∧
    (TransGen groups.IsChild top top ∨ ∀ parent, ¬ groups.IsChild parent top) := by
  by_contra! hnone
  have hfinite : {top | groups.LeadsTo top g}.Finite :=
    (List.finite_toSet groups).subset fun top htop => htop.mem hg
  -- Take a group above with the fewest groups above itself: without a circle, its parent has fewer.
  obtain ⟨top, htop, hmin⟩ := Set.exists_min_image _ (fun top => (groups.above top).ncard) hfinite
    ⟨g, .refl⟩
  obtain ⟨parent, hchild⟩ := (hnone top htop).2
  have hparent : groups.LeadsTo parent g := htop.head hchild
  have hfewer : groups.above parent ⊂ groups.above top := by
    refine ⟨fun higher hhigher => hhigher.tail hchild, fun hsubset => ?_⟩
    exact (hnone parent hparent).1 (hsubset (.single hchild))
  have hfiniteAbove : (groups.above top).Finite :=
    hfinite.subset fun higher hhigher => hhigher.to_reflTransGen.trans htop
  exact (hmin parent hparent).not_gt (Set.ncard_lt_ncard hfewer hfiniteAbove)

/-- A group of a layer above which every group has its parent in the snapshot. Going up from it, one
comes to a circle or leaves the layer. -/
structure IsDetached (groups : Snapshot) (layer : LayerId) (g : FilterGroup) : Prop where
  parent_mem : ∀ top, (groups.applicable layer).LeadsTo top g →
    ∃ parent ∈ groups, top.parent = some parent.id
  circle_or_leaves : ∃ top, (groups.applicable layer).LeadsTo top g ∧
    (TransGen (groups.applicable layer).IsChild top top ∨
      ∀ parent ∈ groups, top.parent = some parent.id → layer ∉ parent.layers)

theorem exists_parent_of_not_mem_orphans (hg : g ∈ groups) (hroot : g.parent ≠ none)
    (horphan : g ∉ groups.orphans) : ∃ parent ∈ groups, g.parent = some parent.id := by
  obtain ⟨id, hid⟩ := Option.ne_none_iff_exists'.mp hroot
  by_contra! hnone
  have hmissing : ∀ parent ∈ groups, parent.id ≠ id := fun parent hparent heq =>
    hnone parent hparent (heq ▸ hid)
  exact horphan (List.mem_filter.mpr ⟨hg, by simpa [hid] using hmissing⟩)

theorem isDetached_of_forall (hg : g ∈ groups.applicable layer)
    (hroots : ∀ top, (groups.applicable layer).LeadsTo top g → top.parent ≠ none)
    (horphans : ∀ top, (groups.applicable layer).LeadsTo top g → top ∉ groups.orphans) :
    groups.IsDetached layer g := by
  refine ⟨fun top htop => ?_, ?_⟩
  · exact exists_parent_of_not_mem_orphans (mem_applicable.mp (htop.mem hg)).1 (hroots top htop)
      (horphans top htop)
  · obtain ⟨top, htop, hcircle | hnone⟩ := exists_leadsTo_circle_or_top hg
    · exact ⟨top, htop, .inl hcircle⟩
    · refine ⟨top, htop, .inr fun parent hparent heq hlayer => hnone parent ?_⟩
      exact ⟨mem_applicable.mpr ⟨hparent, hlayer⟩, htop.mem hg, heq⟩

theorem LeadsTo.reaches {root : FilterGroup} (h : (groups.applicable layer).LeadsTo root g)
    (hroot : root.parent = none) (hget : groups[position]? = some g)
    (happ : g.appliesTo layer = true) : groups.Reaches layer ⟨position, g⟩ := by
  induction h generalizing position with
  | refl => exact .root hget happ hroot
  | @tail parent g _ hchild ih =>
    obtain ⟨hparent, hparentApp⟩ := List.mem_filter.mp hchild.parent_mem
    obtain ⟨position', hget'⟩ := List.mem_iff_getElem?.mp hparent
    exact .child (ih hget' hparentApp) hget happ hchild.parent_eq

theorem Reaches.nestingTooDeep_mem_events {node : Node} (h : groups.Reaches layer node)
    (hleft : node ∉ groups.enteredNodes layer maxDepth) :
    Event.nestingTooDeep ∈ (groups.compile layer maxDepth).events := by
  rw [events_compile, List.mem_append, Visit.mem_events_compileEach_iff layer (by decide),
    Visit.nestingTooDeep_mem_warningsOfAll_iff]
  exact .inl fun hnone => hleft (h.mem_enteredNodes_of_or (.inr hnone))

end Snapshot

namespace Engine

variable {engine : Engine} {groups : Snapshot} {layer : LayerId} {format : Format} {e : Event}

theorem mem_events_compile (hcache : engine.cache = none) (hlayer : layer ∈ groups.layers)
    (he : e ∈ (engine.predicate groups layer).events) :
    e ∈ (engine.compile groups format).events := by
  have hevents : ∀ layers : List LayerId, layer ∈ layers →
      e ∈ (compileLayers groups format layers engine).events := by
    intro layers hmem
    induction layers with
    | nil => exact absurd hmem List.not_mem_nil
    | cons first layers ih =>
      rw [compileLayers, compileLayer_of_none hcache]
      rcases List.mem_cons.mp hmem with rfl | hrest
      · exact List.mem_append_left _ (Traced.mem_events_bind he)
      · exact List.mem_append_right _ (ih hrest)
  exact List.mem_append_right _ (hevents _ hlayer)

theorem orphanedGroup_mem_events (hreport : engine.options.reportOrphans = true)
    {orphan : FilterGroup} (h : orphan ∈ groups.orphans) :
    Event.orphanedGroup ∈ (engine.compile groups format).events := by
  refine List.mem_append_left _ ?_
  rw [orphanEvents, if_pos hreport]
  exact List.mem_map_of_mem h

/-- An engine that keeps no results and reports orphans gives a warning whenever a group of a layer
is not entered, unless the group is detached. -/
theorem exists_warning_or_isDetached (hcache : engine.cache = none)
    (hreport : engine.options.reportOrphans = true) {position : ℕ} {g : FilterGroup}
    (hget : groups[position]? = some g) (happ : g.appliesTo layer = true)
    (hleft : ⟨position, g⟩ ∉ groups.enteredNodes layer engine.options.maxGroupDepth)
    (format : Format) :
    (∃ e ∈ (engine.compile groups format).events, e.level = .warn) ∨
      groups.IsDetached layer g := by
  have hg : g ∈ groups := List.mem_of_getElem? hget
  have hlayer : layer ∈ g.layers := g.appliesTo_iff.mp happ
  refine or_iff_not_imp_left.mpr fun hsilent => ?_
  refine Snapshot.isDetached_of_forall (Snapshot.mem_applicable.mpr ⟨hg, hlayer⟩) ?_ ?_
  · intro root hleads hroot
    have hdeep := (hleads.reaches hroot hget happ).nestingTooDeep_mem_events hleft
    have hmem := groups.mem_layers.mpr ⟨g, hg, hlayer⟩
    exact hsilent ⟨_, mem_events_compile hcache hmem hdeep, rfl⟩
  · intro orphan _ horphan
    exact hsilent ⟨_, orphanedGroup_mem_events hreport horphan, rfl⟩

def nested : Snapshot := [leaf "root" 1 none, leaf "child" 1 (some "root")]

/-- With room for one group on a path the child is left out, and it is not detached. -/
theorem exists_warning_nested :
    (ofOptions ⟨1, true, false⟩).cache = none ∧
      ⟨1, leaf "child" 1 (some "root")⟩ ∉ nested.enteredNodes 1 1 ∧
      ¬ nested.IsDetached 1 (leaf "child" 1 (some "root")) ∧
      ∃ e ∈ ((ofOptions ⟨1, true, false⟩).compile nested .cql).events, e.level = .warn := by
  have hleft : ⟨1, leaf "child" 1 (some "root")⟩ ∉ nested.enteredNodes 1 1 := by decide
  have hattached : ¬ nested.IsDetached 1 (leaf "child" 1 (some "root")) := by
    intro hdetached
    have hchild : (nested.applicable 1).IsChild (leaf "root" 1 none)
        (leaf "child" 1 (some "root")) := ⟨by decide, by decide, rfl⟩
    obtain ⟨_, _, hparent⟩ := hdetached.parent_mem _ (.single hchild)
    exact nomatch hparent
  have hget : nested[1]? = some (leaf "child" 1 (some "root")) := rfl
  refine ⟨rfl, hleft, hattached, ?_⟩
  exact (exists_warning_or_isDetached rfl rfl hget rfl hleft .cql).resolve_right hattached

/-- A group whose parent is there for another layer only. -/
def abroad : Snapshot := [leaf "abroad" 2 none, leaf "lost" 1 (some "abroad")]

def circle : Snapshot := [leaf "one" 1 (some "other"), leaf "other" 1 (some "one")]

/-- Both are left out without a warning. -/
theorem compile_abroad_circle_silent :
    (default.cache = none ∧ default.options = ⟨64, true, false⟩) ∧
      (⟨1, leaf "lost" 1 (some "abroad")⟩ ∈ (Forest.ofSnapshot abroad 1).nodes ∧
        ⟨1, leaf "lost" 1 (some "abroad")⟩ ∉ abroad.enteredNodes 1 64 ∧
        ∀ e ∈ (default.compile abroad .cql).events, e.level ≠ .warn) ∧
      ⟨0, leaf "one" 1 (some "other")⟩ ∈ (Forest.ofSnapshot circle 1).nodes ∧
        ⟨0, leaf "one" 1 (some "other")⟩ ∉ circle.enteredNodes 1 64 ∧
        ∀ e ∈ (default.compile circle .cql).events, e.level ≠ .warn := by
  decide +kernel

end Engine
end FilterForest
