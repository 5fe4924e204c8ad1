import FilterForest.Compile.Tree
import Mathlib.Tactic

/-!
# What compiling reports

The events of a compilation come from three places: from filters and their values, from groups that
a walk refuses, and from groups whose children it leaves out. The first are told apart from the
others by their kind.
-/
namespace FilterForest

/-- The events that are about a filter or one of its values. -/
def Event.IsAboutFilter (e : Event) : Prop :=
  e ∈ [Event.geometryAttribute, .nonNumericMember, .unparsableNumber, .unparsableDate,
    .unparsableCircle, .unparsableGeometry, .noGeometryColumn, .disabledFilter,
    .emptyNumericFilter]

instance (e : Event) : Decidable e.IsAboutFilter := inferInstanceAs (Decidable (_ ∈ _))

namespace Traced

variable {α β : Type} {p : Event → Prop}

/-- A result whose events are all of a kind. -/
def Reports (p : Event → Prop) (t : Traced α) : Prop := ∀ e ∈ t.events, p e

theorem reports_pure (a : α) : (pure a : Traced α).Reports p := by
  simp [Reports]

theorem reports_nothing : (nothing : Traced α).Reports p := by
  simp [Reports]

theorem reports_dropped {e : Event} (h : p e) : (dropped e : Traced α).Reports p := by
  simpa [Reports] using h

theorem reports_ofOption (result : Option α) : (ofOption result).Reports p := by
  simp [Reports]

theorem reports_orDrop {e : Event} (h : p e) (result : Option α) :
    (orDrop result e).Reports p := by
  cases result with
  | none => exact reports_dropped h
  | some a => exact reports_pure a

theorem Reports.bind {t : Traced α} {next : α → Traced β} (h : t.Reports p)
    (hnext : ∀ a, (next a).Reports p) : (t >>= next).Reports p := by
  intro e he
  cases hresult : t.result with
  | none =>
    rw [events_bind_of_none next hresult] at he
    exact h e he
  | some a =>
    rw [events_bind_of_some next hresult, List.mem_append] at he
    rcases he with he | he
    · exact h e he
    · exact hnext a e he

theorem reports_collect {steps : List (Traced α)} (h : ∀ t ∈ steps, t.Reports p) :
    (collect steps).Reports p := by
  intro e he
  obtain ⟨t, ht, het⟩ := List.mem_flatMap.mp he
  exact h t ht e het

end Traced

open Traced

namespace AttributeFilter

variable (f : AttributeFilter)

theorem reports_numberOperand (raw : String) :
    (numberOperand raw).Reports Event.IsAboutFilter := reports_orDrop (by decide) _

theorem reports_momentOperand (raw : String) :
    (momentOperand raw).Reports Event.IsAboutFilter := reports_orDrop (by decide) _

theorem reports_compileMembership : f.compileMembership.Reports Event.IsAboutFilter := by
  apply Reports.bind
  · apply reports_collect
    intro t ht
    obtain ⟨raw, _, rfl⟩ := List.mem_map.mp ht
    unfold member
    split
    · exact (reports_orDrop (by decide) _).bind fun _ => reports_pure _
    · exact reports_pure _
  · intro literals
    split
    · exact reports_nothing
    · exact reports_pure _

theorem reports_compileNumeric : f.compileNumeric.Reports Event.IsAboutFilter := by
  unfold compileNumeric
  split
  · exact (reports_numberOperand _).bind fun _ =>
      (reports_numberOperand _).bind fun _ => reports_pure _
  · exact (reports_numberOperand _).bind fun _ => reports_ofOption _
  · exact reports_nothing

theorem reports_compileTemporal : f.compileTemporal.Reports Event.IsAboutFilter := by
  unfold compileTemporal
  split
  · exact (reports_momentOperand _).bind fun _ => reports_pure _
  · exact (reports_momentOperand _).bind fun _ =>
      (reports_momentOperand _).bind fun _ => reports_pure _
  · exact (reports_momentOperand _).bind fun _ => reports_ofOption _
  · exact (reports_momentOperand _).bind fun _ => reports_ofOption _
  · exact reports_nothing

theorem reports_compile : f.compile.Reports Event.IsAboutFilter := by
  unfold compile
  split
  · exact reports_pure _
  · exact f.reports_compileMembership
  · split
    · exact reports_dropped (by decide)
    · exact f.reports_compileNumeric
    · exact f.reports_compileTemporal
    · unfold compileString
      split
      · exact reports_ofOption _
      · exact reports_nothing
    · unfold compileBoolean
      split
      · exact reports_pure _
      · exact reports_pure _
      · exact reports_nothing
    · exact reports_nothing

end AttributeFilter

theorem SpatialFilter.reports_compile (f : SpatialFilter) (layer : LayerId) :
    (f.compile layer).Reports Event.IsAboutFilter := by
  unfold compile
  split
  · exact reports_dropped (by decide)
  · refine Reports.bind (Reports.bind (reports_collect ?_) fun _ => reports_pure _)
      fun _ => reports_ofOption _
    intro t ht
    obtain ⟨entry, _, rfl⟩ := List.mem_map.mp ht
    dsimp only [GeometryEntry.drawing]
    split
    · exact reports_orDrop (by decide) _
    · exact reports_orDrop (by decide) _

theorem Filter.reports_compile (f : Filter) (layer : LayerId) :
    (f.compile layer).Reports Event.IsAboutFilter := by
  unfold compile
  split
  · exact AttributeFilter.reports_compile _
  · exact SpatialFilter.reports_compile _ layer

theorem Filter.isAboutFilter_of_skip? {f : Filter} {e : Event} (h : f.skip? = some e) :
    e.IsAboutFilter := by
  unfold skip? at h
  split at h
  · exact Option.some.inj h ▸ by decide
  · split at h
    · split at h
      · exact Option.some.inj h ▸ by decide
      · contradiction
    · contradiction

namespace FilterGroup

variable (layer : LayerId) (g : FilterGroup)

theorem reports_terms : (g.terms layer).Reports Event.IsAboutFilter := by
  apply Reports.bind
  · intro e he
    obtain ⟨f, _, hskip⟩ := List.mem_filterMap.mp he
    exact Filter.isAboutFilter_of_skip? hskip
  · intro _
    apply reports_collect
    intro t ht
    obtain ⟨primary, _, rfl⟩ := List.mem_map.mp ht
    refine Reports.bind (reports_collect ?_) fun _ => reports_ofOption _
    intro t ht
    obtain ⟨f, _, rfl⟩ := List.mem_map.mp ht
    exact f.reports_compile layer

end FilterGroup
end FilterForest
