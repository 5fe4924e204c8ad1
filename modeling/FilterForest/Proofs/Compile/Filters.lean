import FilterForest.Proofs.Compile.Tests
import FilterForest.Proofs.Geometry.Parsed
import FilterForest.Proofs.Predicate.Clause

/-!
# What single filters compile to

An attribute filter compiles to one test of its property, negated only if the test is one that is
negated in itself; the numbers of the test are finite, whatever the values of the filter. What a
spatial filter draws is read from texts, so that its geometries read back.
-/
namespace FilterForest

open Traced Predicate

/-- The tests that attribute filters compile to. -/
inductive Test.IsOfProperty : Test → Prop
  | number (op : Comparison) {x : Binary64} (h : x.isFinite = true) :
    IsOfProperty (.compare op (.number x))
  | text (op : Comparison) (s : String) : IsOfProperty (.compare op (.text s))
  | bool (b : Bool) : IsOfProperty (.compare .equal (.bool b))
  | numbers {x y : Binary64} (hx : x.isFinite = true) (hy : y.isFinite = true) :
    IsOfProperty (.between (.number x) (.number y))
  | texts (s t : String) : IsOfProperty (.between (.text s) (.text t))
  | like (pattern : String) (ignoreCase : Bool) : IsOfProperty (.like pattern ignoreCase)
  | oneOf {values : List Literal} (hne : values ≠ []) (h : ∀ value ∈ values, value.IsFinite) :
    IsOfProperty (.oneOf values)
  | isNull : IsOfProperty .isNull

theorem Test.IsOfProperty.isFinite {test : Test} (h : test.IsOfProperty) : test.IsFinite := by
  cases h with
  | number op h => exact h
  | numbers hx hy => exact ⟨hx, hy⟩
  | texts => exact ⟨trivial, trivial⟩
  | oneOf _ h => exact h
  | _ => trivial

/-- The predicates that a filter on a property compiles to. -/
inductive Predicate.IsTestOf (property : String) : Predicate → Prop
  | plain {test : Test} (h : test.IsOfProperty) : IsTestOf property (atom property test)
  | negated {test : Test} (h : test.IsOfProperty) (clausal : test.IsClausal true) :
    IsTestOf property (not (atom property test))

theorem Predicate.IsTestOf.every {property : String} {p : Predicate} (h : p.IsTestOf property) :
    p.Every Test.IsOfProperty := by
  cases h with
  | plain h => exact every_atom_iff.mpr h
  | negated h _ => exact every_not_iff.mpr (every_atom_iff.mpr h)

namespace AttributeFilter

variable (f : AttributeFilter)

theorem isTestOf_invertibleTest {test : Test} (h : test.IsOfProperty)
    (hclausal : test.IsClausal true) : (f.invertibleTest test).IsTestOf f.property := by
  unfold invertibleTest negateIf
  split
  · exact .negated h hclausal
  · exact .plain h

theorem yields_comparison {value : Literal}
    (h : ∀ op, (Test.compare op value).IsOfProperty) :
    (f.comparison value).Yields (IsTestOf f.property) := by
  intro p hp
  obtain ⟨op, _, rfl⟩ := Option.map_eq_some_iff.mp hp
  exact .plain (h op)

theorem yields_numberOperand (raw : String) :
    (numberOperand raw).Yields fun x => x.isFinite = true :=
  yields_orDrop (fun _ => Binary64.isFinite_of_ofFiniteText?) _

theorem yields_compileNumeric : f.compileNumeric.Yields (IsTestOf f.property) := by
  unfold compileNumeric
  split
  · exact (yields_numberOperand _).bind fun _ hx => (yields_numberOperand _).bind fun _ hy =>
      yields_pure (f.isTestOf_invertibleTest (.numbers hx hy) trivial)
  · exact (yields_numberOperand _).bind fun _ hx => f.yields_comparison fun op => .number op hx
  · exact yields_nothing

theorem yields_compileTemporal : f.compileTemporal.Yields (IsTestOf f.property) := by
  have hmoment : ∀ raw, (momentOperand raw).Yields fun _ => True := fun _ _ _ => trivial
  unfold compileTemporal
  split
  · exact (hmoment _).bind fun _ _ =>
      yields_pure (f.isTestOf_invertibleTest (.texts _ _) trivial)
  · exact (hmoment _).bind fun _ _ => (hmoment _).bind fun _ _ =>
      yields_pure (f.isTestOf_invertibleTest (.texts _ _) trivial)
  · exact (hmoment _).bind fun _ _ => f.yields_comparison fun op => .text op _
  · exact (hmoment _).bind fun _ _ => f.yields_comparison fun op => .text op _
  · exact yields_nothing

theorem yields_compileMembership : f.compileMembership.Yields (IsTestOf f.property) := by
  have hmembers : (Traced.collect (f.values.map f.member)).Yields fun values =>
      ∀ value ∈ values, value.IsFinite := by
    apply yields_collect
    intro t ht
    obtain ⟨raw, _, rfl⟩ := List.mem_map.mp ht
    unfold member
    split
    · refine (yields_orDrop (fun _ => Binary64.isFinite_of_ofFiniteText?) _).bind fun _ hx => ?_
      exact yields_pure hx
    · exact yields_pure trivial
  refine hmembers.bind fun values hvalues => ?_
  split
  · exact yields_nothing
  · next hne => exact yields_pure (f.isTestOf_invertibleTest (.oneOf hne hvalues) trivial)

/-- An attribute filter compiles to a test of its property with finite numbers, negated or not. -/
theorem yields_compile : f.compile.Yields (IsTestOf f.property) := by
  unfold compile
  split
  · exact yields_pure (f.isTestOf_invertibleTest .isNull trivial)
  · exact f.yields_compileMembership
  · split
    · exact yields_dropped _
    · exact f.yields_compileNumeric
    · exact f.yields_compileTemporal
    · unfold compileString
      split
      · intro p hp
        obtain ⟨pattern, _, rfl⟩ := Option.map_eq_some_iff.mp hp
        exact f.isTestOf_invertibleTest (.like _ _) trivial
      · exact yields_nothing
    · unfold compileBoolean
      split
      · exact yields_pure (.plain (.bool _))
      · exact yields_pure (.plain (.bool _))
      · exact yields_nothing
    · exact yields_nothing

end AttributeFilter

/-- Drawings whose text reads back. -/
def Drawing.IsReadable : Drawing → Prop
  | base g => g.IsReadable
  | circle c => c.center.IsFinite ∧ c.radius.isFinite = true

theorem GeometryEntry.yields_drawing (entry : GeometryEntry) :
    entry.drawing.Yields Drawing.IsReadable := by
  dsimp only [drawing]
  split
  · refine yields_orDrop (fun d hd => ?_) _
    obtain ⟨c, hread, rfl⟩ := Option.map_eq_some_iff.mp hd
    exact Circle.isFinite_of_ofText? hread
  · refine yields_orDrop (fun d hd => ?_) _
    obtain ⟨g, hread, rfl⟩ := Option.map_eq_some_iff.mp hd
    exact Geometry.isReadable_of_ofWkt? hread

namespace SpatialFilter

variable (f : SpatialFilter)

theorem isReadable_of_mem_drawings {d : Drawing} (h : d ∈ f.drawings) : d.IsReadable := by
  obtain ⟨entry, _, hread⟩ := List.mem_filterMap.mp h
  exact entry.yields_drawing d hread

theorem isReadable_of_mem_bases {g : Geometry} (h : g ∈ f.bases) : g.IsReadable := by
  obtain ⟨d, hd, hbase⟩ := List.mem_filterMap.mp h
  have hreadable := f.isReadable_of_mem_drawings hd
  cases d with
  | base geometry =>
    obtain rfl := Option.some.inj hbase
    exact hreadable
  | circle c => contradiction

theorem isFinite_of_mem_circles {c : Circle} (h : c ∈ f.circles) :
    c.center.IsFinite ∧ c.radius.isFinite = true := by
  obtain ⟨d, hd, hcircle⟩ := List.mem_filterMap.mp h
  have hreadable := f.isReadable_of_mem_drawings hd
  cases d with
  | base geometry => contradiction
  | circle other =>
    obtain rfl := Option.some.inj hcircle
    exact hreadable

end SpatialFilter
end FilterForest
