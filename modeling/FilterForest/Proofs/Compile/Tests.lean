import FilterForest.Proofs.Compile.Condition
import FilterForest.Proofs.Predicate.Numbers

/-!
# The tests of a compiled predicate

Compiling joins tests and negates them, and it neither loses nor makes any: a property holds of all
tests of a compiled layer exactly if it holds of the tests of each filter that takes part. These are
the filters of the groups that the walk enters, as far as they are active and as the filter they
were generated from, if there is one, is active too.
-/
namespace FilterForest

namespace Predicate

variable {P : Test → Prop}

theorem testsOfArgs_eq_flatMap (args : List Predicate) : testsOfArgs args = args.flatMap tests := by
  induction args with
  | nil => rfl
  | cons arg args ih => rw [testsOfArgs, ih, List.flatMap_cons]

theorem every_junction_iff {operator : Connective} {args : List Predicate} :
    (junction operator args).Every P ↔ ∀ arg ∈ args, arg.Every P := by
  rw [Every, tests, testsOfArgs_eq_flatMap, List.forall_mem_flatMap]
  rfl

theorem every_not_iff {arg : Predicate} : (not arg).Every P ↔ arg.Every P := by
  rw [Every, tests, Every]

theorem every_atom_iff {property : String} {test : Test} :
    (atom property test).Every P ↔ P test := by
  rw [Every, tests, List.forall_mem_singleton]

theorem every_combine_iff {operator : Connective} {args : List Predicate} :
    (∀ p ∈ combine operator args, p.Every P) ↔ ∀ arg ∈ args, arg.Every P := by
  match args with
  | [] => simp
  | [arg] => simp
  | first :: second :: rest =>
    simp only [combine_cons_cons, Option.mem_some_iff, forall_eq', every_junction_iff]

end Predicate

namespace Traced

variable {α β : Type} {p : α → Prop} {q : β → Prop}

/-- A property of the result, if there is one. -/
def Yields (p : α → Prop) (t : Traced α) : Prop := ∀ a ∈ t.result, p a

theorem yields_pure {a : α} (h : p a) : (pure a : Traced α).Yields p := by
  intro b hb
  obtain rfl := Option.some.inj hb
  exact h

theorem yields_nothing : (nothing : Traced α).Yields p := nofun

theorem yields_dropped (e : Event) : (dropped e : Traced α).Yields p := nofun

theorem yields_orDrop {result : Option α} (h : ∀ a ∈ result, p a) (e : Event) :
    (orDrop result e).Yields p := by
  unfold Yields
  rw [result_orDrop]
  exact h

theorem Yields.bind {t : Traced α} {next : α → Traced β} (h : t.Yields p)
    (hnext : ∀ a, p a → (next a).Yields q) : (t >>= next).Yields q := by
  intro b hb
  rw [result_bind] at hb
  obtain ⟨a, ha, hb⟩ := Option.bind_eq_some_iff.mp hb
  exact hnext a (h a ha) b hb

theorem yields_collect {steps : List (Traced α)} (h : ∀ t ∈ steps, t.Yields p) :
    (collect steps).Yields fun as => ∀ a ∈ as, p a := by
  intro as has a ha
  obtain rfl := Option.some.inj has
  obtain ⟨t, ht, hresult⟩ := List.mem_filterMap.mp ha
  exact h t ht a hresult

end Traced

open Predicate

variable {P : Test → Prop} (layer : LayerId)

namespace SpatialFilter

variable (f : SpatialFilter)

/-- What the geometries of a filter denote, as far as they read. -/
def drawings : List Drawing := f.geometries.filterMap fun entry => entry.drawing.result

/-- The geometries among them. -/
def bases : List Geometry := f.drawings.filterMap Drawing.base?

/-- The circles among them. -/
def circles : List Circle := f.drawings.filterMap Drawing.circle?

/-- What the columns of a layer are intersected with. -/
def operandList : List SpatialOperand :=
  ((Geometry.collect f.bases).map f.baseOperand).toList ++ f.circles.map f.circleOperand

theorem result_operands : f.operands.result = some f.operandList := by
  simp only [operands, Traced.result_bind, Traced.result_collect, Option.bind_some,
    Traced.result_pure, List.filterMap_map]
  rfl

variable {layer}

variable (layer) in
/-- A layer without columns compiles to nothing, as it has no column to intersect. -/
theorem result_compile : (f.compile layer).result =
    combine .or (intersections (f.columnsFor layer) f.operandList) := by
  cases hcolumns : f.columnsFor layer with
  | nil =>
    have hnone : intersections [] f.operandList = [] :=
      List.flatMap_eq_nil_iff.mpr fun _ _ => rfl
    rw [compile, hcolumns, hnone]
    rfl
  | cons column columns =>
    simp only [compile, hcolumns, Traced.result_bind, result_operands, Option.bind_some,
      Traced.result_ofOption]

theorem forall_mem_operandList_iff {q : SpatialOperand → Prop} :
    (∀ operand ∈ f.operandList, q operand) ↔
      (∀ g ∈ Geometry.collect f.bases, q (f.baseOperand g)) ∧
        ∀ c ∈ f.circles, q (f.circleOperand c) := by
  simp only [operandList, List.forall_mem_append, List.forall_mem_map, Option.mem_toList,
    Option.mem_def, Option.map_eq_some_iff, forall_exists_index, and_imp,
    forall_apply_eq_imp_iff₂]

/-- A filter compiles to the intersections with its operands, for a layer that has columns. -/
theorem yields_compile_iff (hcolumns : f.columnsFor layer ≠ []) :
    (f.compile layer).Yields (Every P) ↔ ∀ operand ∈ f.operandList, P (.intersects operand) := by
  obtain ⟨column, columns, heq⟩ := List.exists_cons_of_ne_nil hcolumns
  have honce : ∀ q : Prop, (q ∧ ∀ _ ∈ columns, q) ↔ q :=
    fun q => ⟨And.left, fun h => ⟨h, fun _ _ => h⟩⟩
  unfold Traced.Yields
  rw [f.result_compile layer, every_combine_iff, heq]
  simp only [intersections, List.forall_mem_flatMap, List.forall_mem_map, every_atom_iff,
    List.forall_mem_cons, honce]

end SpatialFilter

namespace FilterGroup

/-- The filters that take part in what a group asks for. -/
def Contributes (g : FilterGroup) (f : Filter) : Prop :=
  f ∈ g.filters ∧ f.isActive = true ∧
    ∀ id ∈ f.generatedBy, ∃ primary ∈ g.filters, primary.isActive = true ∧
      primary.generatedBy = none ∧ primary.id = id

theorem every_ownConditions_iff (g : FilterGroup) :
    (∀ p ∈ g.ownConditions layer, p.Every P) ↔
      ∀ f, g.Contributes f → (f.compile layer).Yields (Every P) := by
  have hprimary : (∀ p ∈ g.ownConditions layer, p.Every P) ↔
      ∀ f ∈ g.filters, (f.isActive && f.generatedBy.isNone) = true →
        ∀ alternative ∈ f :: g.filters.filter fun other =>
          other.isActive && other.generatedBy = some f.id,
        (alternative.compile layer).Yields (Every P) := by
    simp only [ownConditions, List.forall_mem_filterMap, List.forall_mem_filter]
    simp only [← Option.mem_def, every_combine_iff, alternatives, List.forall_mem_filterMap]
    rfl
  rw [hprimary]
  simp only [Bool.and_eq_true, Option.isNone_iff_eq_none, List.forall_mem_cons,
    List.forall_mem_filter, decide_eq_true_eq]
  refine ⟨fun h f hf => ?_, fun h f hmem hf => ?_⟩
  · obtain ⟨hmem, hactive, hgenerated⟩ := hf
    cases hid : f.generatedBy with
    | none => exact (h f hmem ⟨hactive, hid⟩).1
    | some id =>
      obtain ⟨primary, hprimary, hprimaryActive, hnone, rfl⟩ := hgenerated id hid
      exact (h primary hprimary ⟨hprimaryActive, hnone⟩).2 f hmem ⟨hactive, hid⟩
  · obtain ⟨hactive, hnone⟩ := hf
    constructor
    · refine h f ⟨hmem, hactive, fun id hid => ?_⟩
      exact absurd (hnone.symm.trans hid) (Option.some_ne_none id).symm
    · rintro other hother ⟨hotherActive, hid⟩
      refine h other ⟨hother, hotherActive, fun id hmem' => ⟨f, hmem, hactive, hnone, ?_⟩⟩
      exact Option.some.inj (hid.symm.trans hmem')

end FilterGroup

namespace Visit

mutual

theorem yields_compile_iff : ∀ visit : Visit, (compile layer visit).Yields (Every P) ↔
    ∀ node ∈ visit.nodes, ∀ p ∈ node.group.ownConditions layer, p.Every P
  | again node => by simp [Traced.Yields, compile, nodes]
  | cut node => by
    simp only [Traced.Yields, result_compile_cut, every_combine_iff, nodes,
      List.forall_mem_singleton]
  | entered node children => by
    simp only [Traced.Yields, result_compile_entered, every_combine_iff, nodes,
      List.forall_mem_cons, List.forall_mem_append, List.forall_mem_filterMap]
    exact and_congr_right fun _ => yields_compileEach_iff children

theorem yields_compileEach_iff : ∀ visits : List Visit,
    (∀ visit ∈ visits, (compile layer visit).Yields (Every P)) ↔
      ∀ node ∈ nodesOfAll visits, ∀ p ∈ node.group.ownConditions layer, p.Every P
  | [] => by simp [nodesOfAll]
  | visit :: rest => by
    rw [List.forall_mem_cons, nodesOfAll, List.forall_mem_append, yields_compile_iff visit,
      yields_compileEach_iff rest]

end

end Visit

theorem Snapshot.yields_compile_iff (groups : Snapshot) (maxDepth : ℕ) :
    (groups.compile layer maxDepth).Yields (Every P) ↔
      ∀ node ∈ groups.enteredNodes layer maxDepth, ∀ f, node.group.Contributes f →
        (f.compile layer).Yields (Every P) := by
  simp only [Traced.Yields, result_compile, every_combine_iff, List.forall_mem_filterMap]
  refine (Visit.yields_compileEach_iff layer _).trans ?_
  simp only [FilterGroup.every_ownConditions_iff]
  rfl

end FilterForest
