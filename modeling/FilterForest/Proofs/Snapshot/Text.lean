import FilterForest.Proofs.Json.Injective
import FilterForest.Snapshot.Printer

/-!
# Snapshots from their text

A snapshot is written field by field, and every field can be told from what is written. Only a
buffer that is not finite is written as null, whatever it is. So the text determines a snapshot up
to such buffers, and snapshots without them are determined by their text.
-/
namespace FilterForest

open Text

theorem Json.optionalMember_inj {name : String} {v v' : Option Json}
    (h : optionalMember name v = optionalMember name v') : v = v' := by
  cases v with
  | none =>
    cases v' with
    | none => rfl
    | some value' => exact nomatch h
  | some value =>
    cases v' with
    | none => exact nomatch h
    | some value' => rw [(Prod.mk.inj (List.cons.inj h).1).2]

theorem Json.optionalString_inj {name : String} {v v' : Option String}
    (h : optionalMember name (v.map string) = optionalMember name (v'.map string)) : v = v' :=
  Option.map_injective (fun _ _ => Json.string.inj) (optionalMember_inj h)

theorem Json.strings_inj {values values' : List String} (h : strings values = strings values') :
    values = values' :=
  List.map_injective_iff.mpr (fun _ _ => Json.string.inj) (Json.array.inj h)

/-- A property that passes from the parts of a written record to the record. Of the parts only the
buffers are left open. -/
structure Json.IsInherited (p : Json → Prop) : Prop where
  bool : ∀ value, p (.bool value)
  string : ∀ value, p (.string value)
  layer : ∀ layer : LayerId, p (.integer layer.toInt)
  array : ∀ {items : List Json}, (∀ item ∈ items, p item) → p (.array items)
  object : ∀ {members : List (String × Json)}, (∀ member ∈ members, p member.2) →
    p (.object members)

namespace Json.IsInherited

variable {p : Json → Prop}

theorem isWritable : IsInherited IsWritable where
  bool := .bool
  string := .string
  layer := fun _ => .integer _
  array := .array
  object := .object

theorem map {α : Type} (hp : IsInherited p) {write : α → Json} {as : List α}
    (h : ∀ a ∈ as, p (write a)) : p (Json.array (as.map write)) := by
  apply hp.array
  intro item hitem
  obtain ⟨a, ha, rfl⟩ := List.mem_map.mp hitem
  exact h a ha

theorem strings (hp : IsInherited p) (values : List String) : p (Json.strings values) :=
  hp.map fun value _ => hp.string value

end Json.IsInherited

theorem Json.IsWritable.ofBinary64 (x : Binary64) : (Json.ofBinary64 x).IsWritable := by
  cases x with
  | finite negative m => exact .real negative m
  | infinite negative => exact .null
  | nan => exact .null

/-- What is left of a number in JSON: all numbers that are not finite are one. -/
def Binary64.asWritten (x : Binary64) : Binary64 := if x.isFinite then x else nan

theorem Binary64.asWritten_of_isFinite {x : Binary64} (h : x.isFinite = true) :
    x.asWritten = x := if_pos h

theorem Binary64.isFinite_asWritten (x : Binary64) : x.asWritten.isFinite = x.isFinite := by
  cases x <;> rfl

theorem Json.ofBinary64_eq_iff {x y : Binary64} :
    ofBinary64 x = ofBinary64 y ↔ x.asWritten = y.asWritten := by
  cases x <;> cases y <;> simp [ofBinary64, Binary64.asWritten, Binary64.isFinite]

theorem Json.optionalMember_eq_iff {name : String} {v v' : Option Json} :
    optionalMember name v = optionalMember name v' ↔ v = v' :=
  ⟨optionalMember_inj, congrArg _⟩

theorem Json.forall_mem_optionalMember {p : Json → Prop} {name : String} {value : Option Json}
    (h : ∀ v ∈ value, p v) : ∀ member ∈ optionalMember name value, p member.2 := by
  intro member hmember
  obtain ⟨v, hv, rfl⟩ := List.mem_map.mp hmember
  exact h v (Option.mem_toList.mp hv)

theorem Json.IsInherited.optionalString {p : Json → Prop} (hp : IsInherited p) (name : String)
    (value : Option String) :
    ∀ member ∈ optionalMember name (value.map Json.string), p member.2 := by
  apply forall_mem_optionalMember
  intro v hv
  obtain ⟨s, _, rfl⟩ := Option.map_eq_some_iff.mp hv
  exact hp.string s

namespace AttributeType

theorem code_inj {t t' : AttributeType} (h : t.code = t'.code) : t = t' := by
  rw [← ofCode_code t, h, ofCode_code]

end AttributeType

namespace Condition

theorem code_inj {c c' : Condition} (h : c.code = c'.code) : c = c' := by
  rw [← ofCode_code c, h, ofCode_code]

end Condition

namespace Connective

theorem code_inj {c c' : Connective} (h : c.code = c'.code) : c = c' := by
  have hcode := ofCode?_code c
  rw [h, ofCode?_code] at hcode
  exact (Option.some.inj hcode).symm

end Connective

namespace AttributeFilter

theorem members_inj {f f' : AttributeFilter} (h : f.members = f'.members) : f = f' := by
  obtain ⟨property, type, condition, inverted, caseSensitive, values, generatedBy⟩ := f
  obtain ⟨property', type', condition', inverted', caseSensitive', values', generatedBy'⟩ := f'
  simp only [members, List.cons_append, List.nil_append, List.cons.injEq, Prod.mk.injEq, true_and,
    Json.string.injEq, Json.bool.injEq] at h
  obtain ⟨rfl, htype, hcondition, rfl, rfl, hvalues, hgenerated⟩ := h
  rw [AttributeType.code_inj htype, Condition.code_inj hcondition, Json.strings_inj hvalues,
    Json.optionalString_inj hgenerated]

theorem inherited_members {p : Json → Prop} (hp : Json.IsInherited p) (f : AttributeFilter) :
    ∀ member ∈ f.members, p member.2 := by
  refine List.forall_mem_append.mpr ⟨?_, hp.optionalString _ _⟩
  simp only [List.forall_mem_cons, List.not_mem_nil, false_implies, implies_true, and_true]
  exact ⟨hp.string _, hp.string _, hp.string _, hp.bool _, hp.bool _, hp.strings _⟩

end AttributeFilter

theorem GeometryColumns.toJson_inj {c c' : GeometryColumns} (h : c.toJson = c'.toJson) :
    c = c' := by
  obtain ⟨layer, columns⟩ := c
  obtain ⟨layer', columns'⟩ := c'
  simp only [toJson, Json.object.injEq, List.cons.injEq, Prod.mk.injEq, true_and, and_true,
    Json.integer.injEq, Int64.toInt_inj] at h
  rw [h.1, Json.strings_inj h.2]

theorem GeometryEntry.toJson_inj {e e' : GeometryEntry} (h : e.toJson = e'.toJson) : e = e' := by
  obtain ⟨id, text⟩ := e
  obtain ⟨id', text'⟩ := e'
  simp only [toJson, Json.object.injEq, List.cons.injEq, Prod.mk.injEq, true_and, and_true,
    Json.string.injEq] at h
  rw [h.1, h.2]

namespace SpatialFilter

def HasFiniteBuffer (f : SpatialFilter) : Prop := ∀ x ∈ f.buffer, x.isFinite = true

/-- A filter with what is left of its buffer. -/
def asWritten (f : SpatialFilter) : SpatialFilter :=
  { f with buffer := f.buffer.map Binary64.asWritten }

theorem hasFiniteBuffer_asWritten_iff {f : SpatialFilter} :
    f.asWritten.HasFiniteBuffer ↔ f.HasFiniteBuffer := by
  simp [HasFiniteBuffer, asWritten, Binary64.isFinite_asWritten]

theorem asWritten_of_hasFiniteBuffer {f : SpatialFilter} (h : f.HasFiniteBuffer) :
    f.asWritten = f := by
  obtain ⟨columns, geometries, _ | x⟩ := f
  · rfl
  · rw [asWritten, Option.map_some, Binary64.asWritten_of_isFinite (h x rfl)]

theorem members_eq_iff {f f' : SpatialFilter} :
    f.members = f'.members ↔ f.asWritten = f'.asWritten := by
  obtain ⟨columns, geometries, buffer⟩ := f
  obtain ⟨columns', geometries', buffer'⟩ := f'
  have hcolumns : columns.map GeometryColumns.toJson = columns'.map GeometryColumns.toJson ↔
      columns = columns' :=
    (List.map_injective_iff.mpr fun _ _ => GeometryColumns.toJson_inj).eq_iff
  have hgeometries : geometries.map GeometryEntry.toJson = geometries'.map GeometryEntry.toJson ↔
      geometries = geometries' :=
    (List.map_injective_iff.mpr fun _ _ => GeometryEntry.toJson_inj).eq_iff
  have hbuffer : buffer.map Json.ofBinary64 = buffer'.map Json.ofBinary64 ↔
      buffer.map Binary64.asWritten = buffer'.map Binary64.asWritten := by
    cases buffer <;> cases buffer' <;> simp [Json.ofBinary64_eq_iff]
  simp only [members, asWritten, List.cons_append, List.nil_append, List.cons.injEq, Prod.mk.injEq,
    true_and, Json.array.injEq, Json.optionalMember_eq_iff, hcolumns, hgeometries, hbuffer,
    SpatialFilter.mk.injEq]

theorem inherited_members {p : Json → Prop} (hp : Json.IsInherited p) {f : SpatialFilter}
    (hbuffer : ∀ x ∈ f.buffer, p (.ofBinary64 x)) : ∀ member ∈ f.members, p member.2 := by
  refine List.forall_mem_append.mpr ⟨?_, Json.forall_mem_optionalMember ?_⟩
  · simp only [List.forall_mem_cons, List.not_mem_nil, false_implies, implies_true, and_true]
    refine ⟨hp.map fun c _ => hp.object ?_, hp.map fun e _ => hp.object ?_⟩
    · simp only [List.forall_mem_cons, List.not_mem_nil, false_implies, implies_true, and_true]
      exact ⟨hp.layer _, hp.strings _⟩
    · simp only [List.forall_mem_cons, List.not_mem_nil, false_implies, implies_true, and_true]
      exact ⟨hp.string _, hp.string _⟩
  · intro v hv
    obtain ⟨x, hx, rfl⟩ := Option.map_eq_some_iff.mp hv
    exact hbuffer x hx

end SpatialFilter

def FilterKind.asWritten : FilterKind → FilterKind
  | property a => property a
  | spatial s => spatial s.asWritten

theorem FilterKind.eq_iff_asWritten_eq {kind kind' : FilterKind} :
    kind.tag = kind'.tag ∧ kind.members = kind'.members ↔ kind.asWritten = kind'.asWritten := by
  cases kind with
  | property a =>
    cases kind' with
    | property a' =>
      have hmembers : a.members = a'.members ↔ a = a' :=
        ⟨AttributeFilter.members_inj, congrArg _⟩
      simp [tag, members, asWritten, hmembers]
    | spatial s' => simp [tag, asWritten]
  | spatial s =>
    cases kind' with
    | property a' => simp [tag, asWritten]
    | spatial s' => simp [tag, members, asWritten, SpatialFilter.members_eq_iff]

namespace Filter

def HasFiniteBuffer (f : Filter) : Prop := ∀ s, f.kind = .spatial s → s.HasFiniteBuffer

def asWritten (f : Filter) : Filter := { f with kind := f.kind.asWritten }

theorem hasFiniteBuffer_asWritten_iff {f : Filter} :
    f.asWritten.HasFiniteBuffer ↔ f.HasFiniteBuffer := by
  obtain ⟨id, disabled, a | s⟩ := f
  · simp [HasFiniteBuffer, asWritten, FilterKind.asWritten]
  · simp [HasFiniteBuffer, asWritten, FilterKind.asWritten,
      SpatialFilter.hasFiniteBuffer_asWritten_iff]

theorem asWritten_of_hasFiniteBuffer {f : Filter} (h : f.HasFiniteBuffer) : f.asWritten = f := by
  obtain ⟨id, disabled, a | s⟩ := f
  · rfl
  · rw [asWritten, FilterKind.asWritten, SpatialFilter.asWritten_of_hasFiniteBuffer (h s rfl)]

theorem toJson_eq_iff {f f' : Filter} : f.toJson = f'.toJson ↔ f.asWritten = f'.asWritten := by
  simp only [toJson, asWritten, Json.object.injEq, List.cons_append, List.nil_append,
    List.cons.injEq, Prod.mk.injEq, true_and, Json.string.injEq, Json.bool.injEq, Filter.mk.injEq,
    ← FilterKind.eq_iff_asWritten_eq]

theorem inherited_toJson {p : Json → Prop} (hp : Json.IsInherited p) {f : Filter}
    (hbuffer : ∀ s, f.kind = .spatial s → ∀ x ∈ s.buffer, p (.ofBinary64 x)) : p f.toJson := by
  refine hp.object (List.forall_mem_append.mpr ⟨?_, ?_⟩)
  · simp only [List.forall_mem_cons, List.not_mem_nil, false_implies, implies_true, and_true]
    exact ⟨hp.string _, hp.bool _, hp.string _⟩
  · cases hkind : f.kind with
    | property a => exact a.inherited_members hp
    | spatial s => exact SpatialFilter.inherited_members hp (hbuffer s hkind)

end Filter

namespace FilterGroup

def asWritten (g : FilterGroup) : FilterGroup :=
  { g with filters := g.filters.map Filter.asWritten }

theorem asWritten_of_hasFiniteBuffers {g : FilterGroup} (h : ∀ f ∈ g.filters, f.HasFiniteBuffer) :
    g.asWritten = g := by
  have hfilters : g.filters.map Filter.asWritten = g.filters :=
    (List.map_congr_left fun f hf => Filter.asWritten_of_hasFiniteBuffer (h f hf)).trans
      (List.map_id _)
  rw [asWritten, hfilters]

theorem toJson_eq_iff {g g' : FilterGroup} : g.toJson = g'.toJson ↔ g.asWritten = g'.asWritten := by
  obtain ⟨id, ⟨layers, _⟩, filters, operator, parent⟩ := g
  obtain ⟨id', ⟨layers', _⟩, filters', operator', parent'⟩ := g'
  have hlayers : layers.map (fun layer => Json.integer layer.toInt) =
      layers'.map (fun layer => Json.integer layer.toInt) ↔ layers = layers' :=
    (List.map_injective_iff.mpr fun _ _ heq => Int64.toInt_inj.mp (Json.integer.inj heq)).eq_iff
  have hfilters : filters.map Filter.toJson = filters'.map Filter.toJson ↔
      filters.map Filter.asWritten = filters'.map Filter.asWritten :=
    map_eq_map_iff_map_eq_map fun _ _ => Filter.toJson_eq_iff
  have hoperator : operator.code = operator'.code ↔ operator = operator' :=
    ⟨Connective.code_inj, congrArg _⟩
  have hparent : parent.map Json.string = parent'.map Json.string ↔ parent = parent' :=
    (Option.map_injective fun _ _ => Json.string.inj).eq_iff
  simp only [toJson, asWritten, Json.object.injEq, List.cons_append, List.nil_append,
    List.cons.injEq, Prod.mk.injEq, true_and, Json.string.injEq, Json.array.injEq,
    Json.optionalMember_eq_iff, hlayers, hfilters, hoperator, hparent, FilterGroup.mk.injEq,
    LayerSet.mk.injEq]

theorem inherited_toJson {p : Json → Prop} (hp : Json.IsInherited p) {g : FilterGroup}
    (hfilters : ∀ f ∈ g.filters, p f.toJson) : p g.toJson := by
  refine hp.object (List.forall_mem_append.mpr ⟨?_, hp.optionalString _ _⟩)
  simp only [List.forall_mem_cons, List.not_mem_nil, false_implies, implies_true, and_true]
  exact ⟨hp.string _, hp.map fun layer _ => hp.layer layer, hp.map hfilters, hp.string _⟩

end FilterGroup

namespace Snapshot

/-- Every buffer of a snapshot is finite, where there is one. -/
def HasFiniteBuffers (groups : Snapshot) : Prop :=
  ∀ g ∈ groups, ∀ f ∈ g.filters, f.HasFiniteBuffer

def EveryBuffer (p : Binary64 → Prop) (groups : Snapshot) : Prop :=
  ∀ g ∈ groups, ∀ f ∈ g.filters, ∀ s, f.kind = .spatial s → ∀ x ∈ s.buffer, p x

theorem inherited_toJson {p : Json → Prop} (hp : Json.IsInherited p) {groups : Snapshot}
    (hbuffers : groups.EveryBuffer fun x => p (.ofBinary64 x)) : p groups.toJson :=
  hp.map fun g hg => FilterGroup.inherited_toJson hp fun f hf =>
    Filter.inherited_toJson hp (hbuffers g hg f hf)

theorem isWritable_toJson (groups : Snapshot) : groups.toJson.IsWritable :=
  inherited_toJson .isWritable fun _ _ _ _ _ _ x _ => .ofBinary64 x

/-- A snapshot with what is left of its buffers. -/
def asWritten (groups : Snapshot) : Snapshot := groups.map FilterGroup.asWritten

theorem asWritten_of_hasFiniteBuffers {groups : Snapshot} (h : groups.HasFiniteBuffers) :
    groups.asWritten = groups :=
  (List.map_congr_left fun g hg => FilterGroup.asWritten_of_hasFiniteBuffers (h g hg)).trans
    (List.map_id _)

theorem hasFiniteBuffers_asWritten_iff {groups : Snapshot} :
    groups.asWritten.HasFiniteBuffers ↔ groups.HasFiniteBuffers := by
  simp [HasFiniteBuffers, asWritten, FilterGroup.asWritten, Filter.hasFiniteBuffer_asWritten_iff]

/-- The text of a snapshot determines it up to buffers that are not finite, and no more. -/
theorem text_eq_iff {groups groups' : Snapshot} :
    groups.text = groups'.text ↔ groups.asWritten = groups'.asWritten := by
  have hgroups : groups.map FilterGroup.toJson = groups'.map FilterGroup.toJson ↔
      groups.asWritten = groups'.asWritten :=
    map_eq_map_iff_map_eq_map fun _ _ => FilterGroup.toJson_eq_iff
  rw [← hgroups]
  refine ⟨fun heq => Json.array.inj ?_, fun heq => ?_⟩
  · exact Json.compact_inj groups.isWritable_toJson groups'.isWritable_toJson heq
  · rw [text, text, toJson, toJson, heq]

end Snapshot
end FilterForest
