import FilterForest.Proofs.Json.Range
import FilterForest.Proofs.Snapshot.Text
import FilterForest.Snapshot.Reader

/-!
# Buffers of a text

Every buffer of a snapshot that is read from a text is finite: it is read from a number of the text,
and those are in range.
-/
namespace FilterForest
namespace Json

theorem IsInRange.objectFields? {value : Json} (h : value.IsInRange) {names : List String}
    {fields : List (Option Json)} (hfields : Json.objectFields? names value = some fields) :
    ∀ field ∈ fields, ∀ v ∈ field, v.IsInRange := by
  intro field hfield v hv
  cases h with
  | object hmembers =>
    obtain ⟨name, _, hmember⟩ := exists_of_mem_mapM hfields hfield
    obtain rfl := Option.mem_def.mp hv
    unfold member? at hmember
    split at hmember
    · exact nomatch Option.some.inj hmember
    · next value hfilter =>
      obtain rfl := Option.some.inj (Option.some.inj hmember)
      have hmem := List.mem_filter.mp (hfilter ▸ List.mem_singleton_self _)
      exact hmembers _ hmem.1
    · contradiction
  | _ => contradiction

theorem IsInRange.fields? {value : Json} (h : value.IsInRange) {names : List String}
    {fields : List (Option Json)} (hfields : Json.fields? names value = some fields) :
    ∀ field ∈ fields, ∀ v ∈ field, v.IsInRange := by
  cases h with
  | @array items hitems =>
    unfold Json.fields? at hfields
    dsimp only at hfields
    split at hfields
    · obtain rfl := Option.some.inj hfields
      intro field hfield v hv
      rcases List.mem_append.mp hfield with hitem | hnone
      · obtain ⟨item, hmem, rfl⟩ := List.mem_map.mp hitem
        obtain rfl := Option.some.inj hv
        exact hitems item hmem
      · obtain rfl := List.eq_of_mem_replicate hnone
        contradiction
    · contradiction
  | object hmembers => exact (IsInRange.object hmembers).objectFields? hfields
  | _ => contradiction

theorem IsInRange.list? {α : Type} {read : Json → Option α} {value : Json} (h : value.IsInRange)
    {as : List α} (hread : Json.list? read value = some as) {a : α} (ha : a ∈ as) :
    ∃ item : Json, item.IsInRange ∧ read item = some a := by
  cases h with
  | array hitems =>
    obtain ⟨item, hitem, hread⟩ := exists_of_mem_mapM hread ha
    exact ⟨item, hitems item hitem, hread⟩
  | _ => contradiction

theorem exists_of_withDefault_list {α : Type} {read : Json → Option α} {field : Option Json}
    (hfield : ∀ v ∈ field, v.IsInRange) {as : List α}
    (h : withDefault [] (list? read) field = some as) {a : α} (ha : a ∈ as) :
    ∃ item : Json, item.IsInRange ∧ read item = some a := by
  cases field with
  | none =>
    obtain rfl : [] = as := Option.some.inj h
    contradiction
  | some value => exact (hfield value rfl).list? h ha

theorem exists_of_optional {α : Type} {read : Json → Option α} {field : Option Json} {a : α}
    (h : optional read field = some (some a)) : ∃ v ∈ field, read v = some a := by
  unfold optional at h
  split at h
  · exact nomatch Option.some.inj h
  · exact nomatch Option.some.inj h
  · next value _ =>
    obtain ⟨b, hread, hb⟩ := Option.map_eq_some_iff.mp h
    obtain rfl := Option.some.inj hb
    exact ⟨value, rfl, hread⟩

theorem IsInRange.binary64? {value : Json} (h : value.IsInRange) {x : Binary64}
    (hread : Json.binary64? value = some x) : x.isFinite = true := by
  cases h with
  | integer hint =>
    obtain rfl := Option.some.inj hread
    exact Binary64.isFinite_ofInt hint
  | real hfinite =>
    obtain rfl := Option.some.inj hread
    exact hfinite
  | _ => contradiction

end Json

theorem SpatialFilter.hasFiniteBuffer_of_ofFields? {fields : List (Option Json)} {f : SpatialFilter}
    (hfields : ∀ field ∈ fields, ∀ v ∈ field, v.IsInRange) (h : ofFields? fields = some f) :
    f.HasFiniteBuffer := by
  unfold ofFields? at h
  split at h
  · next columns geometries buffer =>
    simp only [Option.bind_eq_bind, Option.bind_eq_some_iff] at h
    obtain ⟨_, _, _, _, _, hbuffer, h⟩ := h
    obtain rfl := Option.some.inj h
    intro x hx
    obtain rfl := Option.mem_def.mp hx
    obtain ⟨value, hvalue, hread⟩ := Json.exists_of_optional hbuffer
    exact (hfields buffer (by simp) value hvalue).binary64? hread
  · contradiction

theorem Filter.hasFiniteBuffer_of_ofJson? {outer : ℕ} {value : Json} {f : Filter}
    (hvalue : value.IsInRange) (h : ofJson? outer value = some f) : f.HasFiniteBuffer := by
  intro s hs
  unfold ofJson? at h
  obtain ⟨_, _, h⟩ := Option.bind_eq_some_iff.mp h
  split at h
  · split at h
    · obtain ⟨_, _, h⟩ := Option.bind_eq_some_iff.mp h
      obtain ⟨_, _, h⟩ := Option.bind_eq_some_iff.mp h
      obtain ⟨tag, _, h⟩ := Option.bind_eq_some_iff.mp h
      cases tag with
      | property =>
        obtain ⟨_, _, h⟩ := Option.bind_eq_some_iff.mp h
        obtain ⟨_, _, h⟩ := Option.bind_eq_some_iff.mp h
        obtain rfl := Option.some.inj h
        contradiction
      | spatial =>
        obtain ⟨_, hfields, h⟩ := Option.bind_eq_some_iff.mp h
        obtain ⟨_, hread, h⟩ := Option.bind_eq_some_iff.mp h
        obtain rfl := Option.some.inj h
        obtain rfl := FilterKind.spatial.inj hs
        exact SpatialFilter.hasFiniteBuffer_of_ofFields? (hvalue.objectFields? hfields) hread
    · contradiction
  · contradiction

theorem FilterGroup.hasFiniteBuffers_of_ofJson? {value : Json} {g : FilterGroup}
    (hvalue : value.IsInRange) (h : ofJson? value = some g) :
    ∀ f ∈ g.filters, f.HasFiniteBuffer := by
  unfold ofJson? at h
  obtain ⟨fields, hfields, h⟩ := Option.bind_eq_some_iff.mp h
  split at h
  · next id layers filters operator parent =>
    simp only [Option.bind_eq_bind, Option.bind_eq_some_iff] at h
    obtain ⟨_, _, _, _, _, hfilters, _, _, _, _, _, _, h⟩ := h
    obtain rfl := Option.some.inj h
    intro f hf
    have hrange : ∀ v ∈ filters, v.IsInRange := hvalue.fields? hfields filters (by simp)
    obtain ⟨item, hitem, hread⟩ := Json.exists_of_withDefault_list hrange hfilters hf
    exact Filter.hasFiniteBuffer_of_ofJson? hitem hread
  · contradiction

namespace Snapshot

/-- Every buffer of a snapshot that is read from a text is finite. -/
theorem hasFiniteBuffers_of_ofText? {s : List Char} {groups : Snapshot}
    (h : ofText? s = some groups) : groups.HasFiniteBuffers := by
  obtain ⟨value, hvalue, hread⟩ := Option.bind_eq_some_iff.mp h
  intro g hg
  obtain ⟨item, hitem, hgroup⟩ := (Json.isInRange_of_ofText? hvalue).list? hread hg
  exact FilterGroup.hasFiniteBuffers_of_ofJson? hitem hgroup

end Snapshot
end FilterForest
