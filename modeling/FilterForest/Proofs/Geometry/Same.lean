import FilterForest.Geometry.GeoJson
import FilterForest.Proofs.Number.Same
import FilterForest.Proofs.Text.Unambiguous

/-!
# Equal geometries in JSON

Geometries with finite coordinates have the same form in JSON exactly if they are equal: the name
tells the kind, and the coordinates are nested as the geometry nests them.
-/
namespace FilterForest

open Text

def Coord.IsFinite (c : Coord) : Prop := c.x.isFinite = true ∧ c.y.isFinite = true

inductive Geometry.IsFinite : Geometry → Prop
  | point {position : Coord} (h : position.IsFinite) : IsFinite (point position)
  | lineString {positions : List Coord} (h : ∀ c ∈ positions, c.IsFinite) :
    IsFinite (lineString positions)
  | polygon {rings : List (List Coord)} (h : ∀ ring ∈ rings, ∀ c ∈ ring, c.IsFinite) :
    IsFinite (polygon rings)
  | multiPoint {positions : List Coord} (h : ∀ c ∈ positions, c.IsFinite) :
    IsFinite (multiPoint positions)
  | multiLineString {lines : List (List Coord)} (h : ∀ line ∈ lines, ∀ c ∈ line, c.IsFinite) :
    IsFinite (multiLineString lines)
  | multiPolygon {polygons : List (List (List Coord))}
    (h : ∀ rings ∈ polygons, ∀ ring ∈ rings, ∀ c ∈ ring, c.IsFinite) :
    IsFinite (multiPolygon polygons)
  | collection {parts : List Geometry} (h : ∀ part ∈ parts, IsFinite part) :
    IsFinite (collection parts)

theorem sameList_iff_forall₂ {α : Type} {same : α → α → Bool} {as bs : List α} :
    sameList same as bs = true ↔ List.Forall₂ (same · · = true) as bs := by
  induction as generalizing bs with
  | nil => cases bs <;> simp [sameList]
  | cons a as ih =>
    cases bs with
    | nil => simp [sameList]
    | cons b bs => rw [sameList, Bool.and_eq_true, List.forall₂_cons, ih]

theorem map_eq_map_iff_sameList {α β : Type} {f : α → β} {same : α → α → Bool} {as bs : List α}
    (h : ∀ a ∈ as, ∀ b ∈ bs, f a = f b ↔ same a b = true) :
    as.map f = bs.map f ↔ sameList same as bs = true := by
  rw [map_eq_map_iff h, sameList_iff_forall₂]

theorem Coord.toJson_eq_iff_same {a b : Coord} (ha : a.IsFinite) (hb : b.IsFinite) :
    a.toJson = b.toJson ↔ a.same b = true := by
  simp only [toJson, same, Json.array.injEq, List.cons.injEq, and_true, Bool.and_eq_true,
    Json.number_eq_iff_same ha.1 hb.1, Json.number_eq_iff_same ha.2 hb.2]

namespace Geometry

theorem positionsJson_eq_iff_same {as bs : List Coord} (ha : ∀ c ∈ as, c.IsFinite)
    (hb : ∀ c ∈ bs, c.IsFinite) :
    positionsJson as = positionsJson bs ↔ sameList Coord.same as bs = true := by
  rw [positionsJson, positionsJson, Json.array.injEq]
  exact map_eq_map_iff_sameList fun a hmem b hmem' =>
    Coord.toJson_eq_iff_same (ha a hmem) (hb b hmem')

theorem ringsJson_eq_iff_same {as bs : List (List Coord)} (ha : ∀ ring ∈ as, ∀ c ∈ ring, c.IsFinite)
    (hb : ∀ ring ∈ bs, ∀ c ∈ ring, c.IsFinite) :
    ringsJson as = ringsJson bs ↔ sameList (sameList Coord.same) as bs = true := by
  rw [ringsJson, ringsJson, Json.array.injEq]
  exact map_eq_map_iff_sameList fun a hmem b hmem' =>
    positionsJson_eq_iff_same (ha a hmem) (hb b hmem')

theorem withCoordinates_eq_iff {name : String} {coordinates coordinates' : Json} :
    withCoordinates name coordinates = withCoordinates name coordinates' ↔
      coordinates = coordinates' := by
  simp [withCoordinates]

theorem partsJson_eq_map (parts : List Geometry) : partsJson parts = parts.map toJson := by
  induction parts with
  | nil => rfl
  | cons part parts ih => rw [partsJson, ih, List.map_cons]

theorem sameParts_eq_sameList (as bs : List Geometry) : sameParts as bs = sameList same as bs := by
  induction as generalizing bs with
  | nil => cases bs <;> rfl
  | cons a as ih =>
    cases bs with
    | nil => rfl
    | cons b bs => rw [sameParts, sameList, ih]

/-- Geometries with finite coordinates have the same form in JSON exactly if they are equal. -/
theorem toJson_eq_iff_same {g h : Geometry} (hg : g.IsFinite) (hh : h.IsFinite) :
    g.toJson = h.toJson ↔ g.same h = true := by
  induction hg generalizing h with
  | point hfinite =>
    cases hh with
    | point hfinite' =>
      rw [toJson, toJson, withCoordinates_eq_iff, same, Coord.toJson_eq_iff_same hfinite hfinite']
    | _ => simp [toJson, withCoordinates, same]
  | lineString hfinite =>
    cases hh with
    | lineString hfinite' =>
      rw [toJson, toJson, withCoordinates_eq_iff, same,
        positionsJson_eq_iff_same hfinite hfinite']
    | _ => simp [toJson, withCoordinates, same]
  | polygon hfinite =>
    cases hh with
    | polygon hfinite' =>
      rw [toJson, toJson, withCoordinates_eq_iff, same, ringsJson_eq_iff_same hfinite hfinite']
    | _ => simp [toJson, withCoordinates, same]
  | multiPoint hfinite =>
    cases hh with
    | multiPoint hfinite' =>
      rw [toJson, toJson, withCoordinates_eq_iff, same,
        positionsJson_eq_iff_same hfinite hfinite']
    | _ => simp [toJson, withCoordinates, same]
  | multiLineString hfinite =>
    cases hh with
    | multiLineString hfinite' =>
      rw [toJson, toJson, withCoordinates_eq_iff, same, ringsJson_eq_iff_same hfinite hfinite']
    | _ => simp [toJson, withCoordinates, same]
  | multiPolygon hfinite =>
    cases hh with
    | multiPolygon hfinite' =>
      rw [toJson, toJson, withCoordinates_eq_iff, same, Json.array.injEq]
      exact map_eq_map_iff_sameList fun a hmem b hmem' =>
        ringsJson_eq_iff_same (hfinite a hmem) (hfinite' b hmem')
    | _ => simp [toJson, withCoordinates, same]
  | collection hparts ih =>
    cases hh with
    | collection hparts' =>
      have hiff := map_eq_map_iff_sameList fun a hmem b hmem' => ih a hmem (hparts' b hmem')
      simp only [toJson, same, partsJson_eq_map, sameParts_eq_sameList, ← hiff, Json.object.injEq,
        List.cons.injEq, Prod.mk.injEq, Json.array.injEq, true_and, and_true]
    | _ => simp [toJson, withCoordinates, same]

end Geometry
end FilterForest
