import FilterForest.Proofs.Compile.Filters
import FilterForest.Proofs.Predicate.Shown
import FilterForest.Proofs.Snapshot.Loaded

/-!
# The numbers of a compiled predicate

The numbers of attribute filters are finite, whatever their values, and so are the coordinates of
drawn geometries. A buffer of a text is finite as well. The sum of the radius of a circle and the
buffer is not checked again: where it is out of range, and only there, a compiled predicate has a
number that is not finite.
-/
namespace FilterForest

open Traced Predicate

theorem Geometry.isFinite_collect {parts : List Geometry} (h : ∀ part ∈ parts, part.IsFinite)
    {g : Geometry} (hg : Geometry.collect parts = some g) : g.IsFinite := by
  unfold Geometry.collect at hg
  split at hg
  · contradiction
  · obtain rfl := Option.some.inj hg
    exact h _ List.mem_cons_self
  · obtain rfl := Option.some.inj hg
    exact .collection h

namespace SpatialFilter

variable (f : SpatialFilter)

/-- The distance around the centre of a circle. -/
def reach (c : Circle) : Binary64 := c.radius + f.distance?.getD .zero

/-- With a finite buffer, only the distance around a circle can be out of range. -/
theorem yields_isFinite_iff (hf : f.HasFiniteBuffer) {layer : LayerId}
    (hcolumns : f.columnsFor layer ≠ []) : (f.compile layer).Yields (Every Test.IsFinite) ↔
      ∀ c ∈ f.circles, (f.reach c).isFinite = true := by
  rw [f.yields_compile_iff hcolumns, f.forall_mem_operandList_iff]
  have hbase : ∀ g ∈ Geometry.collect f.bases, (f.baseOperand g).IsFinite := by
    intro g hg
    have hfinite : g.IsFinite :=
      Geometry.isFinite_collect (fun part hpart => (f.isReadable_of_mem_bases hpart).isFinite) hg
    unfold baseOperand
    split
    · next distance hdistance =>
      exact ⟨hfinite, hf distance (Option.filter_eq_some_iff.mp hdistance).1⟩
    · exact hfinite
  refine ⟨fun h c hc => (h.2 c hc).2, fun h => ⟨hbase, fun c hc => ⟨?_, h c hc⟩⟩⟩
  exact .point (f.isFinite_of_mem_circles hc).1

end SpatialFilter

namespace Filter

theorem contributes_of_spatial {g : FilterGroup} {f : Filter} {s : SpatialFilter}
    (hkind : f.kind = .spatial s) : g.Contributes f ↔ f ∈ g.filters ∧ f.disabled = false := by
  have hactive : f.isActive = true ↔ f.disabled = false := by
    rw [isActive, skip?, hkind]
    cases f.disabled <;> simp
  have hgenerated : f.generatedBy = none := by
    rw [generatedBy, hkind]
  simp [FilterGroup.Contributes, hactive, hgenerated]

end Filter

namespace Snapshot

/-- Whether a layer draws a circle that its buffer takes out of range. -/
def Overflows (groups : Snapshot) (layer : LayerId) (maxDepth : ℕ) : Prop :=
  ∃ node ∈ groups.enteredNodes layer maxDepth, ∃ f ∈ node.group.filters, f.disabled = false ∧
    ∃ s, f.kind = .spatial s ∧ s.columnsFor layer ≠ [] ∧
      ∃ c ∈ s.circles, (s.reach c).isFinite = false

theorem mem_of_mem_enteredNodes {groups : Snapshot} {layer : LayerId} {maxDepth : ℕ} {node : Node}
    (h : node ∈ groups.enteredNodes layer maxDepth) : node.group ∈ groups := by
  have hnode := Forest.mem_ofSnapshot.mp (reaches_of_mem_enteredNodes h).mem_nodes
  exact List.mem_of_getElem? hnode.1

theorem yields_isFinite_iff {groups : Snapshot} (h : groups.HasFiniteBuffers) (layer : LayerId)
    (maxDepth : ℕ) : (groups.compile layer maxDepth).Yields (Every Test.IsFinite) ↔
      ¬ groups.Overflows layer maxDepth := by
  rw [Snapshot.yields_compile_iff]
  refine ⟨?_, fun hnot node hnode f hf => ?_⟩
  · rintro hyields ⟨node, hnode, f, hf, hdisabled, s, hkind, hcolumns, c, hc, hreach⟩
    have hcontributes := (Filter.contributes_of_spatial hkind).mpr ⟨hf, hdisabled⟩
    have hcompile := hyields node hnode f hcontributes
    have hbuffer := h node.group (mem_of_mem_enteredNodes hnode) f hf s hkind
    rw [Filter.compile, hkind] at hcompile
    rw [(s.yields_isFinite_iff hbuffer hcolumns).mp hcompile c hc] at hreach
    contradiction
  · unfold Filter.compile
    split
    · next a _ => exact fun p hp test htest => ((a.yields_compile p hp).every test htest).isFinite
    · next s hkind =>
      obtain ⟨hmem, hdisabled⟩ := (Filter.contributes_of_spatial hkind).mp hf
      by_cases hcolumns : s.columnsFor layer = []
      · rw [SpatialFilter.compile, hcolumns]
        exact yields_dropped _
      · have hbuffer := h node.group (mem_of_mem_enteredNodes hnode) f hmem s hkind
        refine (s.yields_isFinite_iff hbuffer hcolumns).mpr fun c hc => ?_
        by_contra hreach
        exact hnot ⟨node, hnode, f, hmem, hdisabled, s, hkind, hcolumns, c, hc,
          Bool.not_eq_true _ ▸ hreach⟩

/-- The numbers of a layer of a snapshot that is read from a text are finite, and none stands by a
name in the text or as null in JSON, except where a buffer takes a circle out of range. -/
theorem compile_isFinite_iff_not_overflows {s : List Char} {groups : Snapshot}
    (h : ofText? s = some groups) {layer : LayerId} {maxDepth : ℕ} {p : Predicate}
    (hp : (groups.compile layer maxDepth).result = some p) :
    ((∀ x ∈ p.numbers, x.isFinite = true) ↔ ¬ groups.Overflows layer maxDepth) ∧
      ((∃ x ∈ p.numbers, x.plain ∈ Binary64.names ∧ x.plain <:+: p.cql) ↔
        groups.Overflows layer maxDepth) ∧
      (p.toJson.IsNullFree ↔ ¬ groups.Overflows layer maxDepth) := by
  have hyields := yields_isFinite_iff (hasFiniteBuffers_of_ofText? h) layer maxDepth
  have hevery : p.Every Test.IsFinite ↔ ¬ groups.Overflows layer maxDepth := by
    rw [← hyields, Yields, hp]
    simp
  have hnumbers := every_isFinite_iff.symm.trans hevery
  have hnamed : (∃ x ∈ p.numbers, x.plain ∈ Binary64.names ∧ x.plain <:+: p.cql) ↔
      ∃ x ∈ p.numbers, ¬ x.isFinite = true :=
    exists_congr fun x => and_congr_right fun hx =>
      (and_iff_left (p.plain_infix_cql hx)).trans x.plain_mem_names_iff
  refine ⟨hnumbers, ?_, p.isNullFree_iff.trans hevery⟩
  rw [hnamed, ← not_not (a := groups.Overflows layer maxDepth), ← hnumbers]
  simp only [not_forall, exists_prop]

/-- A circle and a buffer that are both finite and out of range together. -/
def farCircleText : List Char :=
  ("[\x7b\"id\":\"g\",\"layerIds\":[1],\"operator\":\"AND\",\"filters\":[\x7b\"id\":\"f\"," ++
    "\"type\":\"SPATIAL\",\"geometryColumns\":[\x7b\"layerId\":1,\"column\":[\"geom\"]\x7d]," ++
    "\"geometries\":[\x7b\"id\":\"c\",\"geometry\":\"CIRCLE(0 0 1.7e308)\"\x7d]," ++
    "\"buffer\":1.7e308\x7d]\x7d]").toList

theorem overflows_farCircle : ∃ groups p, ofText? farCircleText = some groups ∧
    (groups.compile 1 64).result = some p ∧ groups.Overflows 1 64 ∧
    ∃ x ∈ p.numbers, x.plain ∈ Binary64.names ∧ x.plain <:+: p.cql := by
  have hread : ((ofText? farCircleText).bind fun groups => (groups.compile 1 64).result).any
      (fun p => !p.numbers.all Binary64.isFinite) = true := by
    unfold farCircleText
    repeat rewrite [String.toList_append]
    decide +kernel
  obtain ⟨p, hp, hnot⟩ := (Option.any_eq_true _ _).mp hread
  obtain ⟨groups, hgroups, hcompile⟩ := Option.bind_eq_some_iff.mp hp
  obtain ⟨hfinite, hnames, _⟩ := compile_isFinite_iff_not_overflows hgroups hcompile
  have hoverflows : groups.Overflows 1 64 := by
    by_contra hno
    have hall : p.numbers.all Binary64.isFinite = true := List.all_eq_true.mpr (hfinite.mpr hno)
    exact Bool.false_ne_true (hnot.symm.trans (congrArg (! ·) hall)).symm
  exact ⟨groups, p, hgroups, hcompile, hoverflows, hnames.mpr hoverflows⟩

end Snapshot
end FilterForest
