import FilterForest.Proofs.Compile.Leaves
import FilterForest.Proofs.Compile.Tests
import FilterForest.Proofs.Geometry.Dialect

/-!
# Operands and columns

The first letters of a drawn text decide which reader it is given to, and the other reader would
refuse it. So a spatial filter has one operand for the geometries that are read, if there are any,
and one for each circle that is read, and a layer compiles to the grid of operands and columns. What
is not read has no influence, nor has the place of the circles among the geometries.
-/
namespace FilterForest

open Text

namespace Circle

variable {s : List Char}

theorem isCircle_of_ofText? {c : Circle} (h : ofText? s = some c) : isCircle s = true := by
  obtain ⟨word, hword, h⟩ := Wkt.exists_of_toOption_bind h
  obtain rfl : word = "CIRCLE".toList := by
    by_contra hne
    rw [if_neg hne] at h
    contradiction
  obtain ⟨gap, after, -, htrim⟩ := Wkt.exists_append_of_keyword hword
  obtain ⟨tail, -, hstart⟩ := exists_trimEnd_append (trimStart s)
  rw [isCircle, List.isPrefixOf_iff_prefix, hstart, ← trim, htrim]
  simp only [List.append_assoc]
  exact List.prefix_append _ _

theorem not_isCircle_of_ofWkt? {g : Geometry} (h : Geometry.ofWkt? s = some g) :
    isCircle s = false := by
  obtain ⟨before, gap, inside, after, hbefore, -, -, -, rfl⟩ := Geometry.ofWkt?_eq_some_iff.mp h
  obtain ⟨hsolid, hne⟩ := g.isSolid_keyword
  rw [isCircle, trimStart_gap_append hbefore, trimStart_append hsolid hne]
  cases g <;> rfl

end Circle

namespace GeometryEntry

variable (entry : GeometryEntry)

/-- The geometry that the text of an entry denotes. -/
def base? : Option Geometry := Geometry.ofWkt? entry.text.toList

/-- The circle that the text of an entry denotes. -/
def circle? : Option Circle := Circle.ofText? entry.text.toList

theorem base?_eq_none_or_circle?_eq_none : entry.base? = none ∨ entry.circle? = none := by
  cases hgeometry : entry.base? with
  | none => exact .inl rfl
  | some g =>
    refine .inr (Option.eq_none_iff_forall_ne_some.mpr fun c hc => ?_)
    have hfalse := Circle.not_isCircle_of_ofWkt? hgeometry
    rw [Circle.isCircle_of_ofText? hc] at hfalse
    contradiction

/-- The reader that an entry is not given to would refuse it. -/
theorem result_drawing :
    entry.drawing.result = (entry.base?.map .base).or (entry.circle?.map .circle) := by
  unfold drawing
  cases hcircle : Circle.isCircle entry.text.toList with
  | true =>
    have hnone : entry.base? = none := by
      refine Option.eq_none_iff_forall_ne_some.mpr fun g hg => ?_
      rw [Circle.not_isCircle_of_ofWkt? hg] at hcircle
      contradiction
    simp [hnone, hcircle, circle?]
  | false =>
    have hnone : entry.circle? = none := by
      refine Option.eq_none_iff_forall_ne_some.mpr fun c hc => ?_
      rw [Circle.isCircle_of_ofText? hc] at hcircle
      contradiction
    simp [hnone, hcircle, base?]

theorem drawing_bind_base? : entry.drawing.result.bind Drawing.base? = entry.base? := by
  rw [result_drawing]
  cases entry.base? with
  | none => cases entry.circle? <;> rfl
  | some g => rfl

theorem drawing_bind_circle? : entry.drawing.result.bind Drawing.circle? = entry.circle? := by
  rw [result_drawing]
  rcases entry.base?_eq_none_or_circle?_eq_none with hnone | hnone
  · rw [hnone]
    cases entry.circle? <;> rfl
  · rw [hnone]
    cases entry.base? <;> rfl

/-- An entry is dropped exactly if both readers refuse it. -/
theorem result_drawing_eq_none_iff :
    entry.drawing.result = none ↔ entry.base? = none ∧ entry.circle? = none := by
  rw [result_drawing, Option.or_eq_none_iff, Option.map_eq_none_iff, Option.map_eq_none_iff]

end GeometryEntry

theorem Geometry.length_toList_collect :
    ∀ geometries, (collect geometries).toList.length = if geometries = [] then 0 else 1
  | [] => rfl
  | [_] => rfl
  | _ :: _ :: _ => rfl

theorem filterMap_filter_isSome {α β : Type} (read : α → Option β) (as : List α) :
    (as.filter fun a => (read a).isSome).filterMap read = as.filterMap read := by
  rw [List.filterMap_filter]
  refine List.filterMap_congr fun a _ => ?_
  cases read a <;> rfl

namespace SpatialFilter

variable (f : SpatialFilter) (layer : LayerId)

theorem bases_eq_filterMap : f.bases = f.geometries.filterMap GeometryEntry.base? := by
  rw [bases, drawings, List.filterMap_filterMap]
  simp only [GeometryEntry.drawing_bind_base?]

theorem circles_eq_filterMap : f.circles = f.geometries.filterMap GeometryEntry.circle? := by
  rw [circles, drawings, List.filterMap_filterMap]
  simp only [GeometryEntry.drawing_bind_circle?]

/-- A filter compiles by what is read of it. -/
theorem result_compile_congr {g : SpatialFilter} (hcolumns : g.columns = f.columns)
    (hdistance : g.distance? = f.distance?)
    (hbases : g.geometries.filterMap GeometryEntry.base? =
      f.geometries.filterMap GeometryEntry.base?)
    (hcircles : g.geometries.filterMap GeometryEntry.circle? =
      f.geometries.filterMap GeometryEntry.circle?) :
    (g.compile layer).result = (f.compile layer).result := by
  have hfor : g.columnsFor layer = f.columnsFor layer := by rw [columnsFor, hcolumns, columnsFor]
  have hbase : g.baseOperand = f.baseOperand := by
    funext geometry
    rw [baseOperand, hdistance, baseOperand]
  have hcircle : g.circleOperand = f.circleOperand := by
    funext c
    rw [circleOperand, hdistance, circleOperand]
  have hoperands : g.operandList = f.operandList := by
    rw [operandList, operandList, bases_eq_filterMap, bases_eq_filterMap, circles_eq_filterMap,
      circles_eq_filterMap, hbases, hcircles, hbase, hcircle]
  rw [result_compile, result_compile, hfor, hoperands]

/-- The number of operands: one for all geometries that are read, if there are any, and one for each
circle that is read. -/
def operandCount : ℕ :=
  (if f.geometries.any fun entry => entry.base?.isSome then 1 else 0) +
    f.geometries.countP fun entry => entry.circle?.isSome

/-- The number of columns of a layer, in all declarations for it together. -/
def columnCount : ℕ :=
  ((f.columns.filter (·.layer = layer)).map fun declared => declared.columns.length).sum

theorem length_operandList : f.operandList.length = f.operandCount := by
  have hany : f.bases = [] ↔ ¬ (f.geometries.any fun entry => entry.base?.isSome) = true := by
    simp [bases_eq_filterMap, List.filterMap_eq_nil_iff]
  rw [operandList, List.length_append, Option.toList_map, List.length_map,
    Geometry.length_toList_collect, List.length_map, circles_eq_filterMap,
    List.length_filterMap_eq_countP, operandCount]
  simp only [hany, ite_not]

theorem length_columnsFor : (f.columnsFor layer).length = f.columnCount layer := by
  rw [columnsFor, List.length_flatMap, columnCount]

theorem length_intersections :
    (intersections (f.columnsFor layer) f.operandList).length =
      f.operandCount * f.columnCount layer := by
  rw [intersections, List.length_flatMap, ← length_operandList, ← length_columnsFor]
  simp only [List.length_map, List.map_const', List.sum_replicate_nat]

/-- The leaves of a layer are the intersections of its columns with the operands. -/
theorem leaves_compile :
    (f.compile layer).leaves = intersections (f.columnsFor layer) f.operandList := by
  rw [Traced.leaves, result_compile, Predicate.leaves_combine, intersections, List.flatMap_assoc]
  simp only [List.flatMap_map, Predicate.leaves, ← List.map_eq_flatMap]

theorem result_compile_eq_none_iff :
    (f.compile layer).result = none ↔ f.operandCount * f.columnCount layer = 0 := by
  rw [result_compile, Predicate.combine_eq_none_iff, ← List.length_eq_zero_iff,
    length_intersections]

/-- Entries with the same geometries in order and the same circles in order compile to the same,
whatever else is among them and however the two kinds are mixed. -/
theorem result_compile_of_entries {entries : List GeometryEntry}
    (hgeometries : entries.filter (·.base?.isSome) = f.geometries.filter (·.base?.isSome))
    (hcircles : entries.filter (·.circle?.isSome) = f.geometries.filter (·.circle?.isSome)) :
    ({ f with geometries := entries }.compile layer).result = (f.compile layer).result := by
  refine f.result_compile_congr layer rfl rfl ?_ ?_
  · rw [← filterMap_filter_isSome, hgeometries, filterMap_filter_isSome]
  · rw [← filterMap_filter_isSome, hcircles, filterMap_filter_isSome]

theorem result_compile_filter :
    ({ f with geometries := f.geometries.filter fun entry => entry.drawing.result.isSome }.compile
      layer).result = (f.compile layer).result := by
  apply f.result_compile_of_entries layer
  · rw [List.filter_filter]
    refine List.filter_congr fun entry _ => ?_
    rw [entry.result_drawing]
    cases entry.base? <;> rfl
  · rw [List.filter_filter]
    refine List.filter_congr fun entry _ => ?_
    rw [entry.result_drawing]
    cases entry.circle? <;> simp

theorem result_compile_of_same_zero {distance : Binary64} (hbuffer : f.buffer = some distance)
    (hzero : distance.same .zero = true) :
    ({ f with buffer := none }.compile layer).result = (f.compile layer).result := by
  have hnone : f.distance? = none := by
    rw [distance?, hbuffer, Option.filter_some, hzero]
    rfl
  exact f.result_compile_congr layer rfl hnone.symm rfl rfl

/-- A filter has no more on a layer than the grid of its operands and columns. -/
structure CompilesToGrid : Prop where
  dropped_iff : ∀ entry : GeometryEntry, entry.drawing.result = none ↔
    Geometry.ofWkt? entry.text.toList = none ∧ Circle.ofText? entry.text.toList = none
  without_dropped :
    ({ f with geometries := f.geometries.filter fun entry => entry.drawing.result.isSome }.compile
      layer).result = (f.compile layer).result
  /-- Circles may stand anywhere among the geometries. -/
  of_entries : ∀ entries : List GeometryEntry,
    entries.filter (·.base?.isSome) = f.geometries.filter (·.base?.isSome) →
      entries.filter (·.circle?.isSome) = f.geometries.filter (·.circle?.isSome) →
        ({ f with geometries := entries }.compile layer).result = (f.compile layer).result
  without_zero_buffer : ∀ distance, f.buffer = some distance → distance.same .zero = true →
    ({ f with buffer := none }.compile layer).result = (f.compile layer).result
  eq_none_iff : (f.compile layer).result = none ↔ f.operandCount * f.columnCount layer = 0
  leafCount : (f.compile layer).leaves.length = f.operandCount * f.columnCount layer
  /-- Operand by operand, with that of all geometries before those of the circles. -/
  grid : ∃ operands, f.operands.result = some operands ∧ operands.length = f.operandCount ∧
    operands =
      ((Geometry.collect (f.geometries.filterMap (·.base?))).map f.baseOperand).toList ++
        (f.geometries.filterMap (·.circle?)).map f.circleOperand ∧
    (f.compile layer).leaves = operands.flatMap fun operand =>
      (f.columnsFor layer).map fun column => .atom column (.intersects operand)

/-- Neither entries that are dropped, nor the place of the circles among the geometries, nor a
buffer of no distance have an influence on what a layer compiles to. There is nothing if there are
no operands or no columns, and otherwise one intersection for each operand and column. -/
theorem compile_grid : f.CompilesToGrid layer where
  dropped_iff := GeometryEntry.result_drawing_eq_none_iff
  without_dropped := f.result_compile_filter layer
  of_entries _ := f.result_compile_of_entries layer
  without_zero_buffer _ := f.result_compile_of_same_zero layer
  eq_none_iff := f.result_compile_eq_none_iff layer
  leafCount := by rw [leaves_compile, length_intersections]
  grid := by
    refine ⟨f.operandList, f.result_operands, f.length_operandList, ?_, f.leaves_compile layer⟩
    rw [operandList, bases_eq_filterMap, circles_eq_filterMap]

/-- A circle in front of two geometries, a circle that does not read, and a buffer of minus zero. -/
def mixed : SpatialFilter where
  columns := [⟨1, ["site", "road"]⟩, ⟨2, ["river"]⟩, ⟨1, ["site"]⟩]
  geometries := [⟨"around", "CIRCLE(0 0 5)"⟩, ⟨"point", "POINT(1 2)"⟩, ⟨"broken", "CIRCLE(0 0)"⟩,
    ⟨"line", "LINESTRING(0 0, 1 1)"⟩]
  buffer := some (-.zero)

theorem compile_grid_mixed :
    let entries : List GeometryEntry := [⟨"point", "POINT(1 2)"⟩, ⟨"line", "LINESTRING(0 0, 1 1)"⟩,
      ⟨"around", "CIRCLE(0 0 5)"⟩]
    mixed.operandCount = 2 ∧ mixed.columnCount 1 = 3 ∧ (mixed.compile 1).leaves.length = 6 ∧
      ({ mixed with geometries := entries }.compile 1).result = (mixed.compile 1).result ∧
      ({ mixed with buffer := none }.compile 1).result = (mixed.compile 1).result := by
  intro entries
  have hoperands : mixed.operandCount = 2 := by decide +kernel
  have hcolumns : mixed.columnCount 1 = 3 := by decide +kernel
  have hgrid := compile_grid mixed 1
  refine ⟨hoperands, hcolumns, ?_, hgrid.of_entries entries (by decide +kernel) (by decide +kernel),
    hgrid.without_zero_buffer _ rfl (by decide +kernel)⟩
  rw [hgrid.leafCount, hoperands, hcolumns]

end SpatialFilter
end FilterForest
