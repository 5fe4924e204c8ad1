import FilterForest.Proofs.Json.Faithful
import FilterForest.Proofs.Json.RoundTrip
import FilterForest.Proofs.Snapshot.Loaded

/-!
# Snapshots read back

A snapshot with finite buffers reads back from its text as it is, provided that the reader of
numerals returns each buffer from its numeral. Each kind of field inverts what it is written as, and
a filter is neither nested too deep to be kept nor does it hold a part that denotes nothing.
-/
namespace FilterForest
namespace Json

variable {α : Type}

theorem list?_map {read : Json → Option α} {write : α → Json} {as : List α}
    (h : ∀ a ∈ as, read (write a) = some a) : list? read (array (as.map write)) = some as :=
  mapM_map_eq_some h

theorem list?_strings (values : List String) : list? string? (strings values) = some values :=
  list?_map fun _ _ => rfl

/-- A field that can be left out reads back, as long as its values are not written as null. -/
theorem optional_map {read : Json → Option α} {write : α → Json} {value : Option α}
    (h : ∀ a ∈ value, read (write a) = some a) (hnull : read null = none) :
    optional read (value.map write) = some value := by
  cases value with
  | none => rfl
  | some a =>
    have ha := h a rfl
    rw [Option.map_some, optional, ha]
    · rfl
    · intro heq
      rw [heq, hnull] at ha
      contradiction

theorem int64?_integer (n : Int64) : int64? (integer n.toInt) = some n := by
  have hrange : Int64.minValue.toInt ≤ n.toInt ∧ n.toInt ≤ Int64.maxValue.toInt :=
    ⟨Int64.le_iff_toInt_le.mp (Int64.minValue_le n), Int64.le_iff_toInt_le.mp (Int64.le_maxValue n)⟩
  rw [int64?, if_pos hrange, Int64.ofInt_toInt]

theorem areReadable_iff {items : List Json} :
    areReadable items = true ↔ ∀ item ∈ items, item.isReadable = true := by
  induction items with
  | nil => simp [areReadable]
  | cons item items ih => rw [areReadable, Bool.and_eq_true, ih, List.forall_mem_cons]

theorem membersReadable_iff {members : List (String × Json)} :
    membersReadable members = true ↔ ∀ member ∈ members, member.2.isReadable = true := by
  induction members with
  | nil => simp [membersReadable]
  | cons member members ih => rw [membersReadable, Bool.and_eq_true, ih, List.forall_mem_cons]

theorem IsRecoverable.isReadable {value : Json} (h : value.IsRecoverable) :
    value.isReadable = true := by
  induction h with
  | array _ ih => exact areReadable_iff.mpr ih
  | object _ ih => exact membersReadable_iff.mpr ih
  | _ => rfl

theorem depth_array_le {items : List Json} {k : ℕ} (h : ∀ item ∈ items, item.depth ≤ k) :
    (array items).depth ≤ k + 1 := by
  rw [depth]
  apply Nat.succ_le_succ
  induction items with
  | nil => exact Nat.zero_le k
  | cons item items ih =>
    obtain ⟨hitem, hitems⟩ := List.forall_mem_cons.mp h
    exact Nat.max_le.mpr ⟨hitem, ih hitems⟩

theorem depth_object_le {members : List (String × Json)} {k : ℕ}
    (h : ∀ member ∈ members, member.2.depth ≤ k) : (object members).depth ≤ k + 1 := by
  rw [depth]
  apply Nat.succ_le_succ
  induction members with
  | nil => exact Nat.zero_le k
  | cons member members ih =>
    obtain ⟨hmember, hmembers⟩ := List.forall_mem_cons.mp h
    exact Nat.max_le.mpr ⟨hmember, ih hmembers⟩

theorem depth_map_le {write : α → Json} {as : List α} {k : ℕ} (h : ∀ a ∈ as, (write a).depth ≤ k) :
    (array (as.map write)).depth ≤ k + 1 := by
  apply depth_array_le
  intro item hitem
  obtain ⟨a, ha, rfl⟩ := List.mem_map.mp hitem
  exact h a ha

theorem depth_strings (values : List String) : (strings values).depth ≤ 1 :=
  depth_map_le fun _ _ => le_rfl

theorem depth_ofBinary64 (x : Binary64) : (ofBinary64 x).depth = 0 := by
  unfold ofBinary64
  split <;> rfl

end Json

namespace AttributeFilter

def fields (f : AttributeFilter) : List (Option Json) :=
  [some (.string f.property), some (.string f.type.code), some (.string f.condition.code),
    some (.bool f.inverted), some (.bool f.caseSensitive), some (.strings f.values),
    f.generatedBy.map .string]

theorem ofFields?_fields (f : AttributeFilter) (place : Json.Place) :
    ofFields? place f.fields = some f := by
  have hgenerated : Json.optional Json.string? (f.generatedBy.map .string) = some f.generatedBy :=
    Json.optional_map (fun _ _ => rfl) rfl
  simp [fields, ofFields?, Json.required, Json.withDefault, Json.string?, Json.bool?, Json.code?,
    Json.list?_strings, hgenerated]

theorem depth_members (f : AttributeFilter) : ∀ member ∈ f.members, member.2.depth ≤ 1 := by
  refine List.forall_mem_append.mpr ⟨?_, ?_⟩
  · simp [Json.depth, Json.depth_strings]
  · refine Json.forall_mem_optionalMember (p := fun v => v.depth ≤ 1) fun v hv => ?_
    obtain ⟨id, _, rfl⟩ := Option.map_eq_some_iff.mp hv
    exact Nat.zero_le 1

end AttributeFilter

theorem GeometryColumns.ofJson?_toJson (c : GeometryColumns) : ofJson? c.toJson = some c := by
  have hfields : Json.fields? ["layerId", "column"] c.toJson =
      some [some (.integer c.layer.toInt), some (.strings c.columns)] := rfl
  simp [ofJson?, hfields, Json.required, Json.withDefault, Json.int64?_integer, Json.list?_strings]

theorem GeometryEntry.ofJson?_toJson (e : GeometryEntry) : ofJson? e.toJson = some e := by
  have hfields : Json.fields? ["id", "geometry"] e.toJson =
      some [some (.string e.id), some (.string e.text)] := rfl
  simp [ofJson?, hfields, Json.required, Json.string?]

namespace SpatialFilter

def fields (f : SpatialFilter) : List (Option Json) :=
  [some (.array (f.columns.map GeometryColumns.toJson)),
    some (.array (f.geometries.map GeometryEntry.toJson)), f.buffer.map .ofBinary64]

theorem ofFields?_fields {f : SpatialFilter} (hf : f.HasFiniteBuffer) :
    ofFields? f.fields = some f := by
  have hcolumns : Json.list? GeometryColumns.ofJson?
      (.array (f.columns.map GeometryColumns.toJson)) = some f.columns :=
    Json.list?_map fun c _ => c.ofJson?_toJson
  have hgeometries : Json.list? GeometryEntry.ofJson?
      (.array (f.geometries.map GeometryEntry.toJson)) = some f.geometries :=
    Json.list?_map fun e _ => e.ofJson?_toJson
  have hbuffer : Json.optional Json.binary64? (f.buffer.map .ofBinary64) = some f.buffer := by
    refine Json.optional_map (fun x hx => ?_) rfl
    rw [Json.ofBinary64, if_pos (hf x hx)]
    rfl
  simp [fields, ofFields?, Json.withDefault, hcolumns, hgeometries, hbuffer]

theorem depth_members (f : SpatialFilter) : ∀ member ∈ f.members, member.2.depth ≤ 3 := by
  refine List.forall_mem_append.mpr ⟨?_, ?_⟩
  · simp only [List.forall_mem_cons, List.not_mem_nil, false_implies, implies_true, and_true]
    refine ⟨Json.depth_map_le fun c _ => Json.depth_object_le ?_,
      Json.depth_map_le fun e _ => Json.depth_object_le ?_⟩
    · simp [Json.depth, Json.depth_strings]
    · simp [Json.depth]
  · refine Json.forall_mem_optionalMember (p := fun v => v.depth ≤ 3) fun v hv => ?_
    obtain ⟨x, _, rfl⟩ := Option.map_eq_some_iff.mp hv
    exact (Json.depth_ofBinary64 x).trans_le (Nat.zero_le 3)

end SpatialFilter

namespace Filter

theorem objectFields?_toJson (f : Filter) : Json.objectFields? ["id", "disabled", "type"] f.toJson =
    some [some (.string f.id), some (.bool f.disabled), some (.string f.kind.tag)] := by
  obtain ⟨id, disabled, kind⟩ := f
  rcases kind with ⟨_, _, _, _, _, _, _ | _⟩ | ⟨_, _, _ | _⟩ <;> rfl

theorem objectFields?_property {f : Filter} {a : AttributeFilter} (h : f.kind = .property a) :
    Json.objectFields? AttributeFilter.fieldNames f.toJson = some a.fields := by
  obtain ⟨id, disabled, kind⟩ := f
  obtain rfl : kind = .property a := h
  obtain ⟨_, _, _, _, _, _, _ | _⟩ := a <;> rfl

theorem objectFields?_spatial {f : Filter} {s : SpatialFilter} (h : f.kind = .spatial s) :
    Json.objectFields? SpatialFilter.fieldNames f.toJson = some s.fields := by
  obtain ⟨id, disabled, kind⟩ := f
  obtain rfl : kind = .spatial s := h
  obtain ⟨_, _, _ | _⟩ := s <;> rfl

theorem ofJson?_toJson {outer : ℕ} {f : Filter} (hf : f.HasFiniteBuffer)
    (hkeep : canKeep outer f.toJson = true) : ofJson? outer f.toJson = some f := by
  obtain ⟨id, disabled, kind⟩ := f
  cases kind with
  | property a =>
    have hfields := objectFields?_property (f := ⟨id, disabled, .property a⟩) rfl
    simp [ofJson?, objectFields?_toJson, hkeep, hfields, Json.required, Json.withDefault,
      Json.string?, Json.bool?, FilterKind.tag, Tag.ofJson?, AttributeFilter.ofFields?_fields]
  | spatial s =>
    have hfields := objectFields?_spatial (f := ⟨id, disabled, .spatial s⟩) rfl
    simp [ofJson?, objectFields?_toJson, hkeep, hfields, Json.required, Json.withDefault,
      Json.string?, Json.bool?, FilterKind.tag, Tag.ofJson?,
      SpatialFilter.ofFields?_fields (hf s rfl)]

theorem depth_toJson (f : Filter) : f.toJson.depth ≤ 4 := by
  refine Json.depth_object_le (List.forall_mem_append.mpr ⟨?_, ?_⟩)
  · simp [Json.depth]
  · cases f.kind with
    | property a => exact fun member hmember => (a.depth_members member hmember).trans (by decide)
    | spatial s => exact s.depth_members

theorem canKeep_toJson {f : Filter} (h : f.toJson.IsRecoverable) :
    canKeep FilterGroup.filterNesting f.toJson = true := by
  have hdepth := f.depth_toJson
  have hnesting : FilterGroup.filterNesting + f.toJson.depth ≤ maxNesting := by
    simp only [FilterGroup.filterNesting, maxNesting]
    omega
  simp [canKeep, h.isReadable, hnesting]

end Filter

namespace LayerSet

theorem insertInto_of_lt {layer : LayerId} {layers : List LayerId}
    (h : ∀ other ∈ layers, layer < other) : insertInto layer layers = layer :: layers := by
  cases layers with
  | nil => rfl
  | cons head rest => rw [insertInto, if_pos (h head List.mem_cons_self)]

theorem ofList_toList (s : LayerSet) : ofList s.toList = s := by
  have hlist : ∀ layers : List LayerId, layers.Pairwise (· < ·) →
      (ofList layers).toList = layers := by
    intro layers hlayers
    induction layers with
    | nil => rfl
    | cons head rest ih =>
      obtain ⟨hhead, hrest⟩ := List.pairwise_cons.mp hlayers
      show insertInto head (ofList rest).toList = _
      rw [ih hrest, insertInto_of_lt hhead]
  have hs := hlist s.toList s.ascending
  cases hofList : ofList s.toList with
  | mk layers ascending =>
    rw [hofList] at hs
    cases s with
    | mk layers' ascending' =>
      obtain rfl : layers = layers' := hs
      rfl

end LayerSet

namespace FilterGroup

theorem fields?_toJson (g : FilterGroup) : Json.fields? fieldNames g.toJson =
    some [some (.string g.id), some (.array (g.layers.toList.map (.integer ·.toInt))),
      some (.array (g.filters.map Filter.toJson)), some (.string g.operator.code),
      g.parent.map .string] := by
  obtain ⟨id, layers, filters, operator, _ | parent⟩ := g <;> rfl

theorem ofJson?_toJson {g : FilterGroup}
    (h : ∀ f ∈ g.filters, Filter.ofJson? filterNesting f.toJson = some f) :
    ofJson? g.toJson = some g := by
  have hlayers : Json.list? Json.int64? (.array (g.layers.toList.map (.integer ·.toInt))) =
      some g.layers.toList := Json.list?_map fun layer _ => Json.int64?_integer layer
  have hfilters : Json.list? (Filter.ofJson? filterNesting) (.array (g.filters.map Filter.toJson)) =
      some g.filters := Json.list?_map h
  have hparent : Json.optional Json.string? (g.parent.map .string) = some g.parent :=
    Json.optional_map (fun _ _ => rfl) rfl
  simp [ofJson?, fields?_toJson, Json.required, Json.withDefault, Json.string?, Json.code?,
    hlayers, hfilters, hparent, LayerSet.ofList_toList]

end FilterGroup

/-- The numeral of a finite number is read as the number. -/
def Binary64.HasFaithfulNumeral (x : Binary64) : Prop :=
  match x with
  | finite negative m => (Json.Numeral.ofFinite negative m).real? = some x
  | _ => True

instance (x : Binary64) : Decidable x.HasFaithfulNumeral :=
  match x with
  | .finite negative m =>
    inferInstanceAs
      (Decidable ((Json.Numeral.ofFinite negative m).real? = some (.finite negative m)))
  | .infinite _ => .isTrue trivial
  | .nan => .isTrue trivial

/-- The numeral of a finite number has few digits and a small exponent. -/
def Binary64.HasShortNumeral (x : Binary64) : Prop :=
  match x with
  | finite negative m =>
    (Json.Numeral.ofFinite negative m).decimal.coefficient ≤ twoTo 53 ∧
      (Json.Numeral.ofFinite negative m).decimal.exponent.natAbs ≤ 22
  | _ => True

instance (x : Binary64) : Decidable x.HasShortNumeral :=
  match x with
  | .finite negative m =>
    inferInstanceAs (Decidable
      ((Json.Numeral.ofFinite negative m).decimal.coefficient ≤ twoTo 53 ∧
        (Json.Numeral.ofFinite negative m).decimal.exponent.natAbs ≤ 22))
  | .infinite _ => .isTrue trivial
  | .nan => .isTrue trivial

theorem Binary64.HasShortNumeral.hasFaithfulNumeral {x : Binary64} (h : x.HasShortNumeral) :
    x.HasFaithfulNumeral := by
  cases x with
  | finite negative m => exact Json.Numeral.real?_ofFinite h.1 h.2
  | infinite negative => trivial
  | nan => trivial

theorem Json.IsInherited.isRecoverable : IsInherited IsRecoverable where
  bool := .bool
  string := .string
  layer := fun layer =>
    .integer (Int64.le_toInt layer) ((Int64.toInt_lt layer).trans (by decide +kernel))
  array := .array
  object := .object

theorem Json.IsRecoverable.ofBinary64 {x : Binary64} (h : x.HasFaithfulNumeral) :
    (Json.ofBinary64 x).IsRecoverable := by
  cases x with
  | finite negative m => exact .real h
  | infinite negative => exact .null
  | nan => exact .null

namespace Snapshot

/-- A snapshot reads back from its text. -/
theorem ofText?_text {groups : Snapshot} (hfinite : groups.HasFiniteBuffers)
    (hfaithful : groups.EveryBuffer Binary64.HasFaithfulNumeral) :
    ofText? groups.text = some groups := by
  have hfilter : ∀ g ∈ groups, ∀ f ∈ g.filters, f.toJson.IsRecoverable := fun g hg f hf =>
    Filter.inherited_toJson .isRecoverable fun s hs x hx =>
      .ofBinary64 (hfaithful g hg f hf s hs x hx)
  have hread : Json.ofText? groups.text = some groups.toJson := by
    apply Json.ofText?_compact_of_isRecoverable
    exact inherited_toJson .isRecoverable fun g hg f hf s hs x hx =>
      .ofBinary64 (hfaithful g hg f hf s hs x hx)
  rw [ofText?, hread, Option.bind_some]
  apply Json.list?_map
  intro g hg
  apply FilterGroup.ofJson?_toJson
  intro f hf
  exact Filter.ofJson?_toJson (hfinite g hg f hf) (Filter.canKeep_toJson (hfilter g hg f hf))

/-- A snapshot with finite buffers reads back from its text, and a snapshot that was read from a
text is such a snapshot. The reader of numerals is trusted with the buffers of the snapshot only. -/
theorem ofText?_text_eq_loaded (groups : Snapshot) :
    (groups.HasFiniteBuffers → groups.EveryBuffer Binary64.HasFaithfulNumeral →
      ofText? groups.text = some groups) ∧
    ∀ s, ofText? s = some groups → groups.HasFiniteBuffers ∧
      (groups.EveryBuffer Binary64.HasFaithfulNumeral → ofText? groups.text = ofText? s) := by
  refine ⟨ofText?_text, fun s hs => ?_⟩
  have hfinite := hasFiniteBuffers_of_ofText? hs
  refine ⟨hfinite, fun hfaithful => ?_⟩
  rw [ofText?_text hfinite hfaithful, hs]

/-- A filter with a buffer of two and a half, and one with codes that no table has. -/
def withBuffer : Snapshot :=
  [{ id := "a", layers := .ofList [3, -1], operator := .or, parent := some "",
     filters := [
      ⟨"near", false, .spatial ((SpatialFilter.empty.addColumns 3 ["geom"]).setBuffer
        ((⟨25, -1⟩ : Decimal).toBinary64 false))⟩,
      ⟨"odd", true, .property ((AttributeFilter.ofCondition "n" .unknown .unknown).addValues
        ["\"\n"])⟩] }]

/-- The same snapshot in other words: fields in another order or left out, layers twice, other codes
for the unknown ones, escapes, and another numeral. -/
def withBufferText : List Char :=
  ("[\x7b\"operator\":\"OR\",\"parentGroup\":\"\",\"layerIds\":[3,-1,3],\"id\":\"a\"," ++
    "\"filters\":[\x7b\"id\":\"near\",\"type\":\"SPATIAL\",\"buffer\":25e-1," ++
    "\"geometryColumns\":[[3,[\"geom\"]]]\x7d, \x7b\"id\":\"odd\",\"type\":\"ATTRIBUTE\"," ++
    "\"disabled\":true,\"attribute\":\"n\",\"attributeType\":\"?\",\"condition\":\"\"," ++
    "\"value\":[\"\\u0022\\n\"]\x7d]\x7d]").toList

theorem everyBuffer_withBuffer {p : Binary64 → Prop}
    (h : p ((⟨25, -1⟩ : Decimal).toBinary64 false)) : withBuffer.EveryBuffer p := by
  simp [EveryBuffer, withBuffer, SpatialFilter.setBuffer, h]

theorem ofText?_text_withBuffer : ofText? withBuffer.text = some withBuffer ∧
    ofText? withBuffer.text = ofText? withBufferText := by
  have hfinite : withBuffer.HasFiniteBuffers := everyBuffer_withBuffer (by decide +kernel)
  have hfaithful : withBuffer.EveryBuffer Binary64.HasFaithfulNumeral :=
    everyBuffer_withBuffer (by decide +kernel)
  have hread : ofText? withBufferText = some withBuffer := by
    -- The characters of short texts are found faster than those of one long text.
    unfold withBufferText
    repeat rewrite [String.toList_append]
    decide +kernel
  exact ⟨(ofText?_text_eq_loaded withBuffer).1 hfinite hfaithful,
    ((ofText?_text_eq_loaded withBuffer).2 _ hread).2 hfaithful⟩

/-- A snapshot with finite buffers of few digits reads back from its text, with nothing assumed of
the reader of numerals. -/
theorem ofText?_text_of_hasShortNumeral {groups : Snapshot} (hfinite : groups.HasFiniteBuffers)
    (hshort : groups.EveryBuffer Binary64.HasShortNumeral) : ofText? groups.text = some groups :=
  ofText?_text hfinite fun g hg f hf s hs x hx => (hshort g hg f hf s hs x hx).hasFaithfulNumeral

theorem ofText?_text_of_hasShortNumeral_withBuffer :
    withBuffer.HasFiniteBuffers ∧ withBuffer.EveryBuffer Binary64.HasShortNumeral ∧
      ofText? withBuffer.text = some withBuffer := by
  have hfinite : withBuffer.HasFiniteBuffers := everyBuffer_withBuffer (by decide +kernel)
  have hshort : withBuffer.EveryBuffer Binary64.HasShortNumeral :=
    everyBuffer_withBuffer (by decide +kernel)
  exact ⟨hfinite, hshort, ofText?_text_of_hasShortNumeral hfinite hshort⟩

end Snapshot
end FilterForest
